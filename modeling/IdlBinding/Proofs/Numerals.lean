import IdlBinding.Proofs.Rounding
import IdlBinding.Reflection

/-!
# Integers in attribute texts

What a getter reads as an integer, against the exact integer that stands in the text.

* `Reading` — a text cut into blanks, a sign, a base mark, digits and the rest; `Valid` says that
  each part is as long as it can be. Every text has such a reading (`exists_valid`), and the parser
  finds its parts (`Reading.Valid.parseInteger`);
* the digits are accumulated with a rounding at every step. The result `Counts` the exact integer:
  it is that integer as long as this is small, and never comes back from large to small;
* so the check of the range decides as it would on the exact integer (`gives_integerOr0`).
-/

namespace IdlBinding.Reflection

/-! ## Readings -/

/-- A text cut into the parts of an integer. -/
structure Reading where
  /-- white space and line ends -/
  blanks : List Char
  /-- a sign or nothing -/
  sign : List Char
  /-- the mark of hexadecimal digits or nothing -/
  mark : List Char
  /-- the digits -/
  digits : List Char
  /-- what follows -/
  rest : List Char

namespace Reading

/-- What is left of the text after the sign. -/
def afterSign (r : Reading) : List Char := r.mark ++ (r.digits ++ r.rest)

/-- The text that is read. -/
def text (r : Reading) : List Char := r.blanks ++ (r.sign ++ r.afterSign)

/-- The sign is a minus. -/
def negative (r : Reading) : Bool := r.sign = ['-']

/-- The base of the digits. -/
def radix (r : Reading) : Nat := if r.mark = [] then 10 else 16

/-- The number that the digits denote. -/
def magnitude (r : Reading) : Nat :=
  Digits.toNat r.radix (r.digits.filterMap (Digits.value? r.radix))

/-- The integer that sign and digits denote. -/
def value (r : Reading) : Int := Binary64.signedInt r.negative r.magnitude

/-- Each part is what it should be and as long as it can be. -/
structure Valid (r : Reading) : Prop where
  /-- all leading blanks -/
  blanks : ∀ c ∈ r.blanks, isScriptSpace c = true
  /-- and no blank after them -/
  blanks_end : ∀ c ∈ (r.sign ++ r.afterSign).head?, isScriptSpace c = false
  /-- a sign if there is one -/
  sign : r.sign = ['-'] ∨ r.sign = ['+'] ∨
    r.sign = [] ∧ ∀ c ∈ r.afterSign.head?, c ≠ '-' ∧ c ≠ '+'
  /-- a base mark if there is one -/
  mark : r.mark = ['0', 'x'] ∨ r.mark = ['0', 'X'] ∨
    r.mark = [] ∧ ¬ ['0', 'x'] <+: r.digits ++ r.rest ∧ ¬ ['0', 'X'] <+: r.digits ++ r.rest
  /-- digits of the base -/
  digits : ∀ c ∈ r.digits, (Digits.value? r.radix c).isSome = true
  /-- and no digit after them -/
  digits_end : ∀ c ∈ r.rest.head?, Digits.value? r.radix c = none

theorem radix_pos (r : Reading) : 0 < r.radix := by
  rw [radix]
  split <;> decide

/-- The number stands for the integer of a reading if this is in range, and else is zero. -/
def Gives (r : Reading) (lo : Int) (x : Binary64) : Prop :=
  if r.digits ≠ [] ∧ lo ≤ r.value ∧ r.value ≤ 2147483647 then x.IsInteger r.negative r.magnitude
  else x = .zero

/-! ## Every text has a reading -/

theorem exists_sign (cs : List Char) : ∃ sign tail, cs = sign ++ tail ∧
    (sign = ['-'] ∨ sign = ['+'] ∨ sign = [] ∧ ∀ c ∈ tail.head?, c ≠ '-' ∧ c ≠ '+') := by
  cases cs with
  | nil => exact ⟨[], [], rfl, Or.inr (Or.inr ⟨rfl, by simp⟩)⟩
  | cons c tail =>
    by_cases hminus : c = '-'
    · exact ⟨['-'], tail, by rw [hminus]; rfl, Or.inl rfl⟩
    · by_cases hplus : c = '+'
      · exact ⟨['+'], tail, by rw [hplus]; rfl, Or.inr (Or.inl rfl)⟩
      · exact ⟨[], c :: tail, rfl, Or.inr (Or.inr ⟨rfl, by simp [hminus, hplus]⟩)⟩

theorem exists_mark (cs : List Char) : ∃ mark tail, cs = mark ++ tail ∧
    (mark = ['0', 'x'] ∨ mark = ['0', 'X'] ∨
      mark = [] ∧ ¬ ['0', 'x'] <+: tail ∧ ¬ ['0', 'X'] <+: tail) := by
  by_cases hlower : ['0', 'x'] <+: cs
  · obtain ⟨tail, rfl⟩ := hlower
    exact ⟨['0', 'x'], tail, rfl, Or.inl rfl⟩
  · by_cases hupper : ['0', 'X'] <+: cs
    · obtain ⟨tail, rfl⟩ := hupper
      exact ⟨['0', 'X'], tail, rfl, Or.inr (Or.inl rfl)⟩
    · exact ⟨[], cs, rfl, Or.inr (Or.inr ⟨rfl, hlower, hupper⟩)⟩

/-- The longest run at the front of characters of a kind, and what follows it. -/
theorem exists_run (p : Char → Bool) (cs : List Char) : ∃ run tail, cs = run ++ tail ∧
    (∀ c ∈ run, p c = true) ∧ ∀ c ∈ tail.head?, p c = false := by
  refine ⟨cs.takeWhile p, cs.dropWhile p, List.takeWhile_append_dropWhile.symm, ?_, ?_⟩
  · exact fun c hc => List.all_eq_true.mp List.all_takeWhile c hc
  · intro c hc
    have hnot := List.head?_dropWhile_not p cs
    rw [hc] at hnot
    exact hnot

/-- **Every text has a reading.** -/
theorem exists_valid (cs : List Char) : ∃ r : Reading, r.Valid ∧ r.text = cs := by
  obtain ⟨blanks, afterBlanks, rfl, hblanks, hblanks_end⟩ := exists_run isScriptSpace cs
  obtain ⟨sign, afterSign, rfl, hsign⟩ := exists_sign afterBlanks
  obtain ⟨mark, afterMark, rfl, hmark⟩ := exists_mark afterSign
  obtain ⟨digits, rest, rfl, hdigits, hdigits_end⟩ :=
    exists_run (fun c => (Digits.value? (if mark = [] then 10 else 16) c).isSome) afterMark
  refine ⟨⟨blanks, sign, mark, digits, rest⟩,
    ⟨hblanks, hblanks_end, hsign, hmark, hdigits, ?_⟩, rfl⟩
  intro c hc
  simpa [radix] using hdigits_end c hc

/-! ## The parser finds the parts -/

theorem Valid.dropWhile_text {r : Reading} (h : r.Valid) :
    r.text.dropWhile isScriptSpace = r.sign ++ r.afterSign := by
  rw [text, List.dropWhile_append_of_pos h.blanks]
  rcases hcs : r.sign ++ r.afterSign with _ | ⟨c, tail⟩
  · rfl
  · have hc := h.blanks_end c (by rw [hcs]; rfl)
    rw [List.dropWhile_cons, if_neg (by rw [hc]; exact Bool.false_ne_true)]

theorem splitSign_of_head {cs : List Char} (h : ∀ c ∈ cs.head?, c ≠ '-' ∧ c ≠ '+') :
    splitSign cs = (false, cs) := by
  rw [splitSign.eq_def]
  split
  · exact absurd rfl (h '-' rfl).1
  · exact absurd rfl (h '+' rfl).2
  · rfl

theorem Valid.splitSign {r : Reading} (h : r.Valid) :
    splitSign (r.sign ++ r.afterSign) = (r.negative, r.afterSign) := by
  rw [negative]
  rcases h.sign with hs | hs | ⟨hs, hhead⟩
  · rw [hs]
    rfl
  · rw [hs]
    rfl
  · rw [hs, List.nil_append, splitSign_of_head hhead]
    rfl

theorem splitRadix_of_not_prefix {cs : List Char} (hlower : ¬ ['0', 'x'] <+: cs)
    (hupper : ¬ ['0', 'X'] <+: cs) : splitRadix cs = (10, cs) := by
  rw [splitRadix.eq_def]
  split
  next tail => exact absurd ⟨tail, rfl⟩ hlower
  next tail => exact absurd ⟨tail, rfl⟩ hupper
  next => rfl

theorem Valid.splitRadix {r : Reading} (h : r.Valid) :
    splitRadix r.afterSign = (r.radix, r.digits ++ r.rest) := by
  rw [afterSign, radix]
  rcases h.mark with hm | hm | ⟨hm, hlower, hupper⟩
  · rw [hm]
    rfl
  · rw [hm]
    rfl
  · rw [hm, List.nil_append, splitRadix_of_not_prefix hlower hupper, if_pos rfl]

/-- A run of digits that nothing continues is found as a whole. -/
theorem span_append {radix : Nat} {digits rest : List Char}
    (hdigits : ∀ c ∈ digits, (Digits.value? radix c).isSome = true)
    (hrest : ∀ c ∈ rest.head?, Digits.value? radix c = none) :
    Digits.span radix (digits ++ rest) = (digits.filterMap (Digits.value? radix), rest) := by
  induction digits with
  | nil =>
    cases rest with
    | nil => rfl
    | cons c rest => rw [List.nil_append, Digits.span, hrest c rfl]; rfl
  | cons c digits ih =>
    obtain ⟨hc, hdigits⟩ := List.forall_mem_cons.mp hdigits
    obtain ⟨d, hd⟩ := Option.isSome_iff_exists.mp hc
    rw [List.cons_append, Digits.span, hd, List.filterMap_cons_some hd]
    simp only [ih hdigits]

theorem Valid.filterMap_eq_nil_iff {r : Reading} (h : r.Valid) :
    r.digits.filterMap (Digits.value? r.radix) = [] ↔ r.digits = [] := by
  refine ⟨fun hnil => ?_, fun hnil => by rw [hnil]; rfl⟩
  rw [List.filterMap_eq_nil_iff] at hnil
  refine List.eq_nil_iff_forall_not_mem.mpr fun c hc => ?_
  have hsome := h.digits c hc
  rw [hnil c hc] at hsome
  cases hsome

end Reading

/-! ## The exact integer -/

/-- **Digits accumulated with rounding** count the number that they denote. -/
theorem accumulate_counts {radix : Nat} (h : 0 < radix) (ds : List Nat) :
    (accumulate radix ds).Counts (Digits.toNat radix ds) := by
  -- On the digits, for every number that the accumulated one counts so far.
  have hgeneral : ∀ (ds : List Nat) (n : Nat) (x : Binary64), x.Counts n →
      (ds.foldl (fun x d => (x.timesNat radix).plusNat d) x).Counts
        (ds.foldl (fun n d => n * radix + d) n) := by
    intro ds
    induction ds with
    | nil => exact fun n x hx => hx
    | cons d ds ih => exact fun n x hx => ih _ _ ((hx.timesNat h).plusNat d)
  exact hgeneral ds 0 .zero Binary64.counts_zero

/-- **What the parser reads.** Without digits nothing; else a number that counts the integer. -/
theorem Reading.Valid.parseInteger {r : Reading} (h : r.Valid) {s : String}
    (hs : r.text = s.toList) :
    r.digits = [] ∧ parseInteger s = none ∨
      r.digits ≠ [] ∧ ∃ x : Binary64, x.Counts r.magnitude ∧
        parseInteger s = some (x.withSign r.negative) := by
  rw [Reflection.parseInteger, ← hs, h.dropWhile_text]
  simp only [h.splitSign, h.splitRadix, Reading.span_append h.digits h.digits_end]
  rcases hds : r.digits.filterMap (Digits.value? r.radix) with _ | ⟨d, ds⟩
  · exact Or.inl ⟨h.filterMap_eq_nil_iff.mp hds, rfl⟩
  · refine Or.inr ⟨fun hnil => ?_, accumulate r.radix (d :: ds), ?_, rfl⟩
    · rw [h.filterMap_eq_nil_iff.mpr hnil] at hds
      cases hds
    · rw [Reading.magnitude, hds]
      exact accumulate_counts r.radix_pos (d :: ds)

/-- **What a getter makes of it**: the exact integer if this is in range, else zero. -/
theorem Reading.Valid.gives_integerOr0 {r : Reading} (h : r.Valid) {s : String}
    (hs : r.text = s.toList) {lo : Int} (hlo : -2 ^ 53 < lo) :
    r.Gives lo (integerOr0 lo (some s)) := by
  rw [Gives, integerOr0, Option.bind_some]
  rcases h.parseInteger hs with ⟨hnil, hparse⟩ | ⟨hne, x, hcounts, hparse⟩
  · rw [if_neg fun hall => hall.1 hnil, hparse]
  · obtain ⟨hwithin, hinteger⟩ := hcounts.within_iff r.negative hlo (by decide : maxLong < 2 ^ 53)
    rw [hparse]
    by_cases hrange : lo ≤ r.value ∧ r.value ≤ 2147483647
    · have hin := hwithin.mpr hrange
      simp only [if_pos (And.intro hne hrange), if_pos hin]
      exact hinteger hin
    · have hout := fun hin => hrange (hwithin.mp hin)
      simp only [if_neg fun hall : _ ∧ _ => hrange hall.2, if_neg hout]

/-- **Integer attributes are read exactly.** A text has a reading, and for every reading of it the
getters of both integer types return the integer that sign and digits denote if it is in the range
of the type, a zero with a minus sign as negative zero; in every other case they return zero. The
digits may be any number: that they are accumulated with rounding does not show. -/
theorem get_integer (s : String) :
    (∃ r : Reading, r.Valid ∧ r.text = s.toList) ∧
    ∀ r : Reading, r.Valid → r.text = s.toList →
      (∃ x, ReflectedType.long.get (some s) = .number x ∧ r.Gives (-2147483648) x) ∧
      ∃ x, ReflectedType.unsignedLong.get (some s) = .number x ∧ r.Gives 0 x := by
  refine ⟨Reading.exists_valid s.toList, fun r h hs => ⟨⟨_, rfl, ?_⟩, ⟨_, rfl, ?_⟩⟩⟩
  · exact h.gives_integerOr0 hs (by decide : -2 ^ 53 < minLong)
  · exact h.gives_integerOr0 hs (by decide)

/-- A hexadecimal integer with a sign between blanks and other text, and a run of digits that is
rounded on the way. -/
theorem get_integer_hexadecimal_and_rounded :
    (∃ x, ReflectedType.long.get (some " \n-0x1Fg") = .number x ∧ x.IsInteger true 31) ∧
    ReflectedType.unsignedLong.get (some " \n-0x1Fg") = .number .zero ∧
    ReflectedType.long.get (some "-9007199254740993000001") = .number .zero := by
  have hvalid : Reading.Valid ⟨[' ', '\n'], ['-'], ['0', 'x'], ['1', 'F'], ['g']⟩ :=
    ⟨List.all_eq_true.mp rfl, by rintro _ ⟨⟩; rfl, by decide, by decide,
      List.all_eq_true.mp rfl, by rintro _ ⟨⟩; rfl⟩
  obtain ⟨⟨x, hx, hgives⟩, y, hy, hzero⟩ := (get_integer " \n-0x1Fg").2 _ hvalid (by decide)
  rw [Reading.Gives, if_pos (by decide)] at hgives
  rw [Reading.Gives, if_neg (by decide)] at hzero
  have hlong : Reading.Valid ⟨[], ['-'], [], "9007199254740993000001".toList, []⟩ :=
    ⟨List.all_eq_true.mp rfl, by rintro _ ⟨⟩; rfl, by decide, by decide,
      List.all_eq_true.mp rfl, by rintro _ ⟨⟩⟩
  obtain ⟨⟨z, hz, houtside⟩, -⟩ := (get_integer "-9007199254740993000001").2 _ hlong (by decide)
  rw [Reading.Gives, if_neg (by decide)] at houtside
  exact ⟨⟨x, hx, hgives⟩, hzero ▸ hy, houtside ▸ hz⟩

end IdlBinding.Reflection
