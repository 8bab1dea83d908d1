import IdlBinding.Decimal
import IdlBinding.Digits

/-!
# Number literals

The number literals of data text: their parts, how they are read, and the number each stands for.

An integer literal of 64 bits stands for itself. Every other literal becomes a binary64 number in
two steps, and each of them may lose something:

* `leading` — digits are taken up while they fit 64 bits. Further digits of the integer part only
  count as a power of ten, further digits of the fraction are dropped;
* `scale` — the digits are rounded to binary64, and the result is multiplied or divided by a power
  of ten that is rounded too.

So the number is the nearest one while digits and power of ten are small enough to be exact, and
otherwise may be a neighbour of it. `exact` is what the literal denotes, for comparison.
-/

namespace IdlBinding.Json

/-- A number literal. -/
structure Number where
  /-- a minus sign stands before it -/
  negative : Bool
  /-- the digits of the integer part, at least one and no superfluous zeros -/
  whole : List Nat
  /-- the digits after the point; none if there is no point -/
  fraction : List Nat
  /-- the power of ten after the mark, if there is one -/
  exponent : Option Int
  deriving DecidableEq, Repr

/-! ## Reading -/

/-- An integer part: a lone zero, or digits that do not start with zero. -/
def readWhole (cs : List Char) : Option (List Nat × List Char) :=
  match Digits.span 10 cs with
  | ([], _) => none
  | (0 :: _ :: _, _) => none
  | (ds, rest) => some (ds, rest)

/-- A fraction: nothing, or a point and at least one digit. -/
def readFraction : List Char → Option (List Nat × List Char)
  | '.' :: cs =>
    match Digits.span 10 cs with
    | ([], _) => none
    | (ds, rest) => some (ds, rest)
  | cs => some ([], cs)

/-- The digits of an exponent, at least one. -/
def readExponentDigits (negative : Bool) (cs : List Char) : Option (Option Int × List Char) :=
  match Digits.span 10 cs with
  | ([], _) => none
  | (ds, rest) =>
    let n : Int := Digits.toNat 10 ds
    some (some (if negative then -n else n), rest)

/-- An exponent: nothing, or a mark of either case, perhaps a sign, and digits. -/
def readExponent : List Char → Option (Option Int × List Char)
  | c :: cs =>
    if c = 'e' || c = 'E' then
      match cs with
      | '-' :: cs => readExponentDigits true cs
      | '+' :: cs => readExponentDigits false cs
      | cs => readExponentDigits false cs
    else some (none, c :: cs)
  | [] => some (none, [])

/-- The parts of a number after its sign. -/
def readMagnitude (negative : Bool) (cs : List Char) : Option (Number × List Char) := do
  let (whole, cs) ← readWhole cs
  let (fraction, cs) ← readFraction cs
  let (exponent, cs) ← readExponent cs
  some (⟨negative, whole, fraction, exponent⟩, cs)

/-- A number. -/
def readNumber : List Char → Option (Number × List Char)
  | '-' :: cs => readMagnitude true cs
  | cs => readMagnitude false cs

/-! ## Powers of ten -/

/-- The greatest power of ten that a number is scaled by at once; the next one is not finite. -/
def maxPower : Nat := 308

/-- The rank of a magnitude divided by `10 ^ places`, at most `maxPower` places at a time. -/
def scaleDown (rank places : Nat) : Nat :=
  if places ≤ maxPower then Binary64.quotient rank (Binary64.powerOfTen places)
  else if rank = 0 then 0
  else scaleDown (Binary64.quotient rank (Binary64.powerOfTen maxPower)) (places - maxPower)
termination_by places
decreasing_by
  unfold maxPower at *
  omega

/-- The rank of a decimal whose coefficient is rounded before its power of ten is applied. -/
def scale (d : Decimal) : Nat :=
  let start := Binary64.rankOfNat d.coefficient
  if d.exponent < 0 then scaleDown start (-d.exponent).toNat
  else if d.exponent ≤ maxPower then Binary64.product start (Binary64.powerOfTen d.exponent.toNat)
  else if start = 0 then 0
  else finiteRanks

/-! ## Values -/

namespace Number

/-- Take up digits while the number fits 64 bits: the number, and how many digits are left. -/
def absorb (n : Nat) : List Nat → Nat × Nat
  | [] => (n, 0)
  | d :: ds => if n * 10 + d < Nat.pow 2 64 then absorb (n * 10 + d) ds else (n, ds.length + 1)

/-- The magnitude of a literal as far as its digits fit 64 bits. The fraction is tried on its own,
so its first digit may fit where a digit of the integer part did not. -/
def leading (n : Number) : Decimal :=
  let (whole, above) := absorb 0 n.whole
  let (coefficient, below) := absorb whole n.fraction
  ⟨coefficient, n.exponent.getD 0 + above - (n.fraction.length - below : Nat)⟩

/-- The magnitude that a literal denotes. -/
def exact (n : Number) : Decimal :=
  ⟨Digits.toNat 10 (n.whole ++ n.fraction), n.exponent.getD 0 - n.fraction.length⟩

/-- The binary64 number of a literal, unless it is too large. -/
def toBinary64? (n : Number) : Option Binary64 :=
  match Binary64.ofRank n.negative (scale n.leading) with
  | .finite negative rank => some (.finite negative rank)
  | _ => none

/-- The integer of a literal without point and mark, if it fits 64 bits with a sign. A zero with a
minus sign is not an integer, since it would lose its sign. -/
def integer? (n : Number) : Option Int :=
  let magnitude := Digits.toNat 10 n.whole
  let value : Int := if n.negative then -(magnitude : Int) else magnitude
  if n.fraction.isEmpty && n.exponent.isNone && !(n.negative && magnitude == 0)
      && -(Nat.pow 2 63 : Int) ≤ value && value < (Nat.pow 2 63 : Int) then
    some value
  else none

end Number

end IdlBinding.Json
