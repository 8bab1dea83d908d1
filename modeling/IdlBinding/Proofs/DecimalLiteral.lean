import IdlBinding.Json.Number
import IdlBinding.Proofs.DecimalOrder
import IdlBinding.Proofs.ReadBack

/-!
# Decimal literals

The decimal that a literal of a script denotes: digits with or without a point among them, and
perhaps a power of ten. Either side of the point may be empty, but not both, and zeros may stand in
front.

The reader is specified by the two shapes that a literal has, digits alone (`readLiteral_whole`) and
digits around a point (`readLiteral_point`), each with whatever exponent follows.
-/

namespace IdlBinding.Decimal

open Binary64 (signedInt)
open Reflection (value?_of_isDigit toNat_toDigits)

/-! ## Reading -/

/-- A point and the digits after it, which may be missing. -/
def splitFraction : List Char → List Nat × List Char
  | '.' :: cs => Digits.span 10 cs
  | cs => ([], cs)

/-- The decimal of a literal without a sign. -/
def readLiteral (cs : List Char) : Option Decimal :=
  let (whole, cs) := Digits.span 10 cs
  let (fraction, cs) := splitFraction cs
  if whole = [] ∧ fraction = [] then none
  else
    match Json.readExponent cs with
    | some (exponent, []) => some (Json.Number.exact ⟨false, whole, fraction, exponent⟩)
    | _ => none

/-- The rational that a literal denotes, which may have a sign. -/
def literalValue? (text : String) : Option ℚ :=
  let (negative, cs) := Reflection.splitSign text.toList
  (readLiteral cs).map fun d => if negative then -d.value else d.value

/-! ## Runs of digits -/

/-- The values of digits. -/
def digitValues (cs : List Char) : List Nat := cs.filterMap (Digits.value? 10)

theorem isDigit_toDigits (n : Nat) : ∀ c ∈ Nat.toDigits 10 n, c.isDigit = true :=
  fun _ hc => Nat.isDigit_of_mem_toDigits (by decide) (by decide) hc

theorem isDigit_zeros (n : Nat) : ∀ c ∈ List.replicate n '0', c.isDigit = true := by
  intro c hc
  rw [List.eq_of_mem_replicate hc]
  rfl

theorem notMem_of_isDigit {x : Char} {cs : List Char} (h : ∀ c ∈ cs, c.isDigit = true)
    (hx : x.isDigit = false) : x ∉ cs := by
  intro hmem
  rw [h x hmem] at hx
  cases hx

theorem value?_of_not_isDigit {c : Char} (h : c.isDigit = false) : Digits.value? 10 c = none := by
  have hout : ¬ (decide (0x30 ≤ c.toNat) && decide (c.toNat ≤ 0x39)) = true := by
    rw [Bool.and_eq_true, decide_eq_true_iff, decide_eq_true_iff]
    intro hin
    rw [Char.isDigit_iff_toNat.mpr hin] at h
    cases h
  -- The letters have values from ten on.
  rw [Digits.value?, Option.filter_eq_none_iff]
  intro n hn
  simp only [Digits.hexValue?, if_neg hout] at hn
  rw [decide_eq_true_iff]
  split at hn
  next hupper =>
    rw [Bool.and_eq_true, decide_eq_true_iff, decide_eq_true_iff] at hupper
    cases hn
    omega
  next =>
    split at hn
    next hlower =>
      rw [Bool.and_eq_true, decide_eq_true_iff, decide_eq_true_iff] at hlower
      cases hn
      omega
    next => cases hn

theorem span_digits {digits : List Char} (hdigits : ∀ c ∈ digits, c.isDigit = true)
    (rest : List Char) (hrest : ∀ c ∈ rest.head?, c.isDigit = false) :
    Digits.span 10 (digits ++ rest) = (digitValues digits, rest) := by
  refine Reflection.Reading.span_append (fun c hc => ?_) (fun c hc => ?_)
  · rw [value?_of_isDigit (hdigits c hc)]
    rfl
  · exact value?_of_not_isDigit (hrest c hc)

theorem digitValues_cons {c : Char} (hc : c.isDigit = true) (cs : List Char) :
    digitValues (c :: cs) = (c.toNat - '0'.toNat) :: digitValues cs :=
  List.filterMap_cons_some (value?_of_isDigit hc)

theorem digitValues_lt (cs : List Char) : ∀ d ∈ digitValues cs, d < 10 := by
  intro d hd
  obtain ⟨c, -, hvalue⟩ := List.mem_filterMap.mp hd
  exact of_decide_eq_true (Option.mem_filter_iff.mp hvalue).2

theorem length_digitValues {cs : List Char} (h : ∀ c ∈ cs, c.isDigit = true) :
    (digitValues cs).length = cs.length := by
  induction cs with
  | nil => rfl
  | cons c cs ih =>
    obtain ⟨hc, hcs⟩ := List.forall_mem_cons.mp h
    rw [digitValues_cons hc, List.length_cons, List.length_cons, ih hcs]

theorem digitValues_eq_nil_iff {cs : List Char} (h : ∀ c ∈ cs, c.isDigit = true) :
    digitValues cs = [] ↔ cs = [] := by
  rw [← List.length_eq_zero_iff, length_digitValues h, List.length_eq_zero_iff]

theorem digitValues_append (a b : List Char) :
    digitValues (a ++ b) = digitValues a ++ digitValues b :=
  List.filterMap_append

theorem digitValues_zeros (n : Nat) : digitValues (List.replicate n '0') = List.replicate n 0 :=
  List.filterMap_replicate_of_some rfl

theorem toNat_append_zeros (ds : List Nat) (n : Nat) :
    Digits.toNat 10 (ds ++ List.replicate n 0) = Digits.toNat 10 ds * 10 ^ n := by
  induction n with
  | zero => rw [List.replicate_zero, List.append_nil, Nat.pow_zero, Nat.mul_one]
  | succ n ih =>
    rw [List.replicate_succ', ← List.append_assoc, Digits.toNat, List.foldl_append, ← Digits.toNat,
      ih, List.foldl_cons, List.foldl_nil, Nat.pow_succ, Nat.add_zero, Nat.mul_assoc]

theorem toNat_zeros_append (n : Nat) (ds : List Nat) :
    Digits.toNat 10 (List.replicate n 0 ++ ds) = Digits.toNat 10 ds := by
  induction n with
  | zero => rfl
  | succ n ih =>
    rw [List.replicate_succ, List.cons_append, ← ih]
    rfl

/-! ## Exponents -/

/-- A mark, a sign and the digits of a power of ten. -/
def exponentPart (e : Int) : List Char :=
  'e' :: (if e < 0 then '-' else '+') :: Nat.toDigits 10 e.natAbs

theorem head_exponentPart (e : Int) : ∀ c ∈ (exponentPart e).head?, c = 'e' := by
  rintro _ ⟨⟩
  rfl

theorem readExponentDigits_append (negative : Bool) {digits rest : List Char}
    (hdigits : ∀ c ∈ digits, c.isDigit = true) (hne : digits ≠ [])
    (hrest : ∀ c ∈ rest.head?, c.isDigit = false) :
    Json.readExponentDigits negative (digits ++ rest) =
      some (some (signedInt negative (Digits.toNat 10 (digitValues digits))), rest) := by
  rw [Json.readExponentDigits, span_digits hdigits rest hrest]
  cases hvalues : digitValues digits with
  | nil => exact absurd ((digitValues_eq_nil_iff hdigits).mp hvalues) hne
  | cons d ds => rfl

theorem readExponent_exponentPart (e : Int) :
    Json.readExponent (exponentPart e) = some (some e, []) := by
  have hread (negative : Bool) : Json.readExponentDigits negative (Nat.toDigits 10 e.natAbs) =
      some (some (signedInt negative e.natAbs), []) := by
    have hend : ∀ c ∈ ([] : List Char).head?, c.isDigit = false :=
      fun c hc => absurd hc (Option.not_mem_none c)
    have happend := readExponentDigits_append negative (isDigit_toDigits e.natAbs)
      Nat.toDigits_ne_nil hend
    rwa [List.append_nil, digitValues, toNat_toDigits] at happend
  rw [exponentPart]
  by_cases hneg : e < 0
  · have habs : signedInt true e.natAbs = e := by
      rw [signedInt, if_pos rfl]
      omega
    rw [if_pos hneg]
    exact (hread true).trans (by rw [habs])
  · have habs : signedInt false e.natAbs = e := by
      rw [signedInt, if_neg Bool.false_ne_true]
      omega
    rw [if_neg hneg]
    exact (hread false).trans (by rw [habs])

/-! ## The two shapes of literals -/

theorem readLiteral_whole {whole : List Char} {x : Option Int}
    (hwhole : ∀ c ∈ whole, c.isDigit = true) (hne : whole ≠ []) (tail : List Char)
    (htail : Json.readExponent tail = some (x, []))
    (hstart : ∀ c ∈ tail.head?, c.isDigit = false ∧ c ≠ '.') :
    readLiteral (whole ++ tail) = some ⟨Digits.toNat 10 (digitValues whole), x.getD 0⟩ := by
  have hfraction : splitFraction tail = ([], tail) := by
    rw [splitFraction.eq_def]
    split
    · exact absurd rfl (hstart '.' rfl).2
    · rfl
  have hdigits : digitValues whole ≠ [] := fun hnil => hne ((digitValues_eq_nil_iff hwhole).mp hnil)
  rw [readLiteral, span_digits hwhole tail (fun c hc => (hstart c hc).1)]
  simp only [hfraction, and_true, if_neg hdigits, htail, Json.Number.exact, List.append_nil,
    List.length_nil, Nat.cast_zero, sub_zero]

theorem readLiteral_point {whole fraction : List Char} {x : Option Int}
    (hwhole : ∀ c ∈ whole, c.isDigit = true) (hne : whole ≠ [])
    (hfraction : ∀ c ∈ fraction, c.isDigit = true) (tail : List Char)
    (htail : Json.readExponent tail = some (x, []))
    (hstart : ∀ c ∈ tail.head?, c.isDigit = false) :
    readLiteral (whole ++ '.' :: (fraction ++ tail)) =
      some ⟨Digits.toNat 10 (digitValues (whole ++ fraction)), x.getD 0 - fraction.length⟩ := by
  have hpoint : ∀ c ∈ ('.' :: (fraction ++ tail)).head?, c.isDigit = false := by
    rintro _ ⟨⟩
    rfl
  have hdigits : ¬ (digitValues whole = [] ∧ digitValues fraction = []) := by
    rw [digitValues_eq_nil_iff hwhole]
    exact fun h => hne h.1
  rw [readLiteral, span_digits hwhole _ hpoint]
  simp only [splitFraction, span_digits hfraction tail hstart, if_neg hdigits, htail,
    Json.Number.exact, digitValues_append, length_digitValues hfraction]

end IdlBinding.Decimal
