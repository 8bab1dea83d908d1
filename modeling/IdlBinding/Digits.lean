/-!
# Digits

Runs of digits in a base of at most sixteen, and the numbers they denote.
-/

namespace IdlBinding.Digits

/-- The value of a hexadecimal digit of either case. -/
def hexValue? (c : Char) : Option Nat :=
  let n := c.toNat
  if 0x30 ≤ n && n ≤ 0x39 then some (n - 0x30)
  else if 0x41 ≤ n && n ≤ 0x46 then some (n - 0x37)
  else if 0x61 ≤ n && n ≤ 0x66 then some (n - 0x57)
  else none

/-- The value of a digit of a base. -/
def value? (radix : Nat) (c : Char) : Option Nat := (hexValue? c).filter (· < radix)

/-- The longest run of digits at the front, as values, and what follows it. -/
def span (radix : Nat) : List Char → List Nat × List Char
  | [] => ([], [])
  | c :: cs =>
    match value? radix c with
    | some d =>
      let (ds, rest) := span radix cs
      (d :: ds, rest)
    | none => ([], c :: cs)

/-- The number that a run of digits denotes. -/
def toNat (radix : Nat) (ds : List Nat) : Nat := ds.foldl (fun n d => n * radix + d) 0

end IdlBinding.Digits
