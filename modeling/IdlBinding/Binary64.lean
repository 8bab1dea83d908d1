/-!
# Binary floating-point numbers

The data of the IEEE 754 format binary64, in exact integer arithmetic.

A finite magnitude is known by its **rank**, its place in the increasing list of all finite
magnitudes: zero has rank 0, the least positive number rank 1. The **units** of a rank are its
magnitude as a multiple of 2^-1074, of which every finite magnitude is a whole multiple. So an
operation is exact in units, and one call of `nearestRank` brings the result back into the
format.

* `units` — from a rank to its exact magnitude;
* `nearestRank` — from an exact quotient to the nearest rank, a tie going to the even rank;
* `rankOfNat`, `rankOfDecimal`, `ofInt` — the nearest to a number;
* `product`, `quotient`, `timesNat`, `plusNat` — the arithmetic of number readers;
* `within`, `exceeds` — comparison with integers.
-/

namespace IdlBinding

/-- The number of finite magnitudes: 2047 exponents with 2^52 fractions each. -/
def finiteRanks : Nat := 2047 * Nat.pow 2 52

/-- A number of the format binary64. All its not-a-number data count as one. -/
inductive Binary64 where
  /-- not a number -/
  | nan
  /-- an infinity with its sign -/
  | infinite (negative : Bool)
  /-- a sign and the rank of the magnitude; zero has both signs -/
  | finite (negative : Bool) (rank : Fin finiteRanks)
  deriving DecidableEq, Repr

namespace Binary64

/-! ## Ranks and units -/

/-- The number of units in one. -/
def unitsPerOne : Nat := Nat.pow 2 1074

/-- The magnitude of a rank in units. The first 2^53 ranks are one unit apart, and the distance
doubles every 2^52 ranks from there. -/
def units (rank : Nat) : Nat :=
  if rank < Nat.pow 2 52 then rank
  else (Nat.pow 2 52 + rank % Nat.pow 2 52) * Nat.pow 2 (rank / Nat.pow 2 52 - 1)

/-- A quotient rounded to the nearest integer, a tie to the even one. -/
def roundDiv (num den : Nat) : Nat :=
  let quotient := num / den
  let twice := 2 * (num % den)
  if twice < den then quotient
  else if twice = den then quotient + quotient % 2
  else quotient + 1

/-- The rank nearest to `num / den` units, a tie going to the even rank. Ranks from `finiteRanks`
on stand for magnitudes that are too large. -/
def nearestRank (num den : Nat) : Nat :=
  let doublings := Nat.log2 (num / den) - 52
  doublings * Nat.pow 2 52 + roundDiv num (den * Nat.pow 2 doublings)

/-- The number of a sign and a rank; too large a rank is infinite. -/
def ofRank (negative : Bool) (rank : Nat) : Binary64 :=
  if h : rank < finiteRanks then .finite negative ⟨rank, h⟩ else .infinite negative

/-! ## Bits -/

/-- The number with the given 64 bits. -/
def ofBits (bits : Nat) : Binary64 :=
  let rank := bits % Nat.pow 2 63
  if finiteRanks < rank then .nan else ofRank (bits / Nat.pow 2 63 % 2 = 1) rank

/-- The 64 bits of a number. -/
def toBits : Binary64 → Nat
  | .nan => finiteRanks + Nat.pow 2 51
  | .infinite negative => (if negative then Nat.pow 2 63 else 0) + finiteRanks
  | .finite negative rank => (if negative then Nat.pow 2 63 else 0) + rank

/-! ## Reading numbers -/

/-- The nearest rank to an integer. -/
def rankOfNat (n : Nat) : Nat := nearestRank (n * unitsPerOne) 1

/-- The nearest number to an integer with a sign of its own. -/
def ofSigned (negative : Bool) (magnitude : Nat) : Binary64 :=
  ofRank negative (rankOfNat magnitude)

/-- The nearest number to an integer. -/
def ofInt (n : Int) : Binary64 := ofSigned (n < 0) n.natAbs

/-- The number of decimal digits of a number; one for zero. -/
def decimalLength (n : Nat) : Nat := (Nat.toDigits 10 n).length

/-- The nearest rank to `coefficient * 10 ^ exponent`. -/
def rankOfDecimal (coefficient : Nat) (exponent : Int) : Nat :=
  nearestRank (coefficient * Nat.pow 10 exponent.toNat * unitsPerOne)
    (Nat.pow 10 (-exponent).toNat)

/-- The rank of a power of ten. -/
def powerOfTen (k : Nat) : Nat := rankOfDecimal 1 k

/-! ## Arithmetic -/

/-- The nearest rank to the product of two magnitudes. -/
def product (a b : Nat) : Nat := nearestRank (units a * units b) unitsPerOne

/-- The nearest rank to the quotient of two magnitudes, the second of which is not zero. -/
def quotient (a b : Nat) : Nat := nearestRank (units a * unitsPerOne) (units b)

/-- The number with the opposite sign. -/
def negate : Binary64 → Binary64
  | .nan => .nan
  | .infinite negative => .infinite !negative
  | .finite negative rank => .finite (!negative) rank

/-- The product with a positive integer. -/
def timesNat (x : Binary64) (factor : Nat) : Binary64 :=
  match x with
  | .finite negative rank => ofRank negative (nearestRank (units rank * factor) 1)
  | x => x

/-- The sum of a number that is not negative and an integer. -/
def plusNat (x : Binary64) (summand : Nat) : Binary64 :=
  match x with
  | .finite negative rank =>
    ofRank negative (nearestRank (units rank + summand * unitsPerOne) 1)
  | x => x

/-! ## Comparison -/

/-- The units of a finite number, with its sign. -/
def signedUnits (negative : Bool) (rank : Nat) : Int :=
  if negative then -(units rank : Int) else units rank

/-- The number is finite and lies between two integers, bounds included. -/
def within (lo hi : Int) : Binary64 → Bool
  | .finite negative rank =>
    lo * unitsPerOne ≤ signedUnits negative rank && signedUnits negative rank ≤ hi * unitsPerOne
  | _ => false

/-- The number is greater than an integer. -/
def exceeds (bound : Int) : Binary64 → Bool
  | .nan => false
  | .infinite negative => !negative
  | .finite negative rank => bound * unitsPerOne < signedUnits negative rank

/-- The number is a zero of either sign. -/
def isZero : Binary64 → Bool
  | .finite _ rank => rank.val == 0
  | _ => false

/-- The zero without a sign. -/
def zero : Binary64 := .finite false ⟨0, by decide⟩

end Binary64

end IdlBinding
