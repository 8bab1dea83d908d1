import IdlBinding.Binary64

/-!
# Decimal text of numbers

The fewest decimal digits that identify a binary64 number, and two ways to lay them out.

* `shortest` — for one digit, two digits and so on, the two neighbours of the number with that
  many digits are tried, and the first that reads back is taken; of two that do, the nearer, and
  of two equally near, the greater.
* `positional` — all digits in their places, whatever the exponent.
* `script` — the notation of the script language: digits in their places while the point is
  near, otherwise one digit before the point and an exponent.

The two layouts are independent of each other: the first divides by a power of ten, the second
cuts the list of digits.
-/

namespace IdlBinding

/-- The number `coefficient * 10 ^ exponent`. -/
structure Decimal where
  /-- the digits, as a number -/
  coefficient : Nat
  /-- the power of ten they count -/
  exponent : Int
  deriving DecidableEq, Repr

namespace Decimal

/-! ## The fewest digits -/

/-- The decimal reads back as the number of that rank. -/
def readsBack (rank : Nat) (d : Decimal) : Bool :=
  Binary64.rankOfDecimal d.coefficient d.exponent == rank

/-- The magnitude of a rank as a fraction with a power of ten divided out: numerator and
denominator of `units rank / 2^1074 / 10^exponent`. -/
def scaled (rank : Nat) (exponent : Int) : Nat × Nat :=
  (Binary64.units rank * Nat.pow 10 (-exponent).toNat,
    Binary64.unitsPerOne * Nat.pow 10 exponent.toNat)

/-- The number of digits before the point of the magnitude of a positive rank; zero or negative if
that many zeros follow the point. Every positive magnitude is above 10^-400. -/
def pointPosition (rank : Nat) : Int :=
  let fraction := scaled rank (-400)
  (Binary64.decimalLength (fraction.1 / fraction.2) : Int) - 400

/-- Of two neighbours the one that reads back. If both do, the lower one when it is nearer. -/
def choose (lowReads highReads lowNearer : Bool) (low high : Decimal) : Option Decimal :=
  if lowReads && (lowNearer || !highReads) then some low
  else if highReads then some high
  else none

/-- Of the two neighbours of the magnitude that are whole multiples of a power of ten, the one to
write, if any reads back. -/
def candidate? (rank : Nat) (exponent : Int) : Option Decimal :=
  let fraction := scaled rank exponent
  let quotient := fraction.1 / fraction.2
  let low : Decimal := ⟨quotient, exponent⟩
  let high : Decimal := ⟨quotient + 1, exponent⟩
  choose (low.readsBack rank) (high.readsBack rank)
    (2 * (fraction.1 % fraction.2) < fraction.2) low high

/-- Try ever smaller powers of ten. -/
def search (rank : Nat) : Nat → Int → Decimal
  | 0, exponent => ⟨(scaled rank exponent).1 / (scaled rank exponent).2, exponent⟩
  | fuel + 1, exponent => (candidate? rank exponent).getD (search rank fuel (exponent - 1))

/-- Move the zeros at the end of the coefficient into the exponent. -/
def stripZeros : Nat → Decimal → Decimal
  | 0, d => d
  | fuel + 1, d =>
    if d.coefficient % 10 = 0 then stripZeros fuel ⟨d.coefficient / 10, d.exponent + 1⟩ else d

/-- The decimal with the fewest digits that reads back as the number of a positive rank. A finite
number has at most 1100 digits, where the search ends. -/
def shortest (rank : Nat) : Decimal :=
  let d := search rank 1100 (pointPosition rank - 1)
  stripZeros (Binary64.decimalLength d.coefficient) d

/-! ## Layouts -/

/-- The digits of a number, with zeros before them up to a width. -/
def paddedDigits (width n : Nat) : List Char :=
  let digits := Nat.toDigits 10 n
  List.replicate (width - digits.length) '0' ++ digits

/-- All digits in their places. The coefficient has no zero at its end. -/
def positional (d : Decimal) : List Char :=
  if 0 ≤ d.exponent then Nat.toDigits 10 (d.coefficient * Nat.pow 10 d.exponent.toNat)
  else
    let places := (-d.exponent).toNat
    Nat.toDigits 10 (d.coefficient / Nat.pow 10 places)
      ++ '.' :: paddedDigits places (d.coefficient % Nat.pow 10 places)

/-- One digit before the point, and a signed exponent. -/
def scientific (digits : List Char) (exponent : Int) : List Char :=
  let sign := if exponent < 0 then '-' else '+'
  let tail := 'e' :: sign :: Nat.toDigits 10 exponent.natAbs
  match digits with
  | [] => tail
  | [d] => d :: tail
  | d :: ds => d :: '.' :: (ds ++ tail)

/-- The notation of the script language. -/
def script (d : Decimal) : List Char :=
  let digits := Nat.toDigits 10 d.coefficient
  let point := (digits.length : Int) + d.exponent
  if digits.length ≤ point && point ≤ 21 then
    digits ++ List.replicate (point - digits.length).toNat '0'
  else if 0 < point && point ≤ 21 then
    digits.take point.toNat ++ '.' :: digits.drop point.toNat
  else if -6 < point && point ≤ 0 then
    '0' :: '.' :: (List.replicate (-point).toNat '0' ++ digits)
  else scientific digits (point - 1)

end Decimal

/-! ## Text of binary64 numbers -/

namespace Binary64

/-- A text with the sign of a negative number before it. -/
def signed (negative : Bool) (text : List Char) : String :=
  String.ofList (if negative then '-' :: text else text)

/-- Positional notation with the fewest digits. Zero keeps its sign, and the infinities are
written short. -/
def positionalText : Binary64 → String
  | .nan => "NaN"
  | .infinite negative => signed negative "inf".toList
  | .finite negative rank =>
    signed negative (if rank.val = 0 then ['0'] else (Decimal.shortest rank).positional)

/-- The notation of the script language with the fewest digits. Zero has no sign. -/
def scriptText : Binary64 → String
  | .nan => "NaN"
  | .infinite negative => signed negative "Infinity".toList
  | .finite negative rank =>
    if rank.val = 0 then "0" else signed negative (Decimal.shortest rank).script

end Binary64

end IdlBinding
