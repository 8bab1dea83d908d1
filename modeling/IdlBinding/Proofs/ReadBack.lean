import IdlBinding.Proofs.Numerals
import IdlBinding.Proofs.WholeNumbers

/-!
# Reflected values are read back

What a setter writes and the getter of the same type reads.

* The text of an integer is a `Reading` of its own digits (`Reading.ofInteger`). So an integer in
  the range of its type is read back from the text that is written for it, and only a negative zero
  loses its sign (`integerOr0_scriptText`);
* whatever stands in an attribute, what is read there is in the range of the type. So writing it
  back and reading again changes nothing more, and a second write-back writes the same.
-/

namespace IdlBinding.Reflection

/-! ## Integers as texts -/

theorem value?_of_isDigit {c : Char} (h : c.isDigit = true) :
    Digits.value? 10 c = some (c.toNat - '0'.toNat) := by
  obtain ⟨hlo, hhi⟩ := Char.isDigit_iff_toNat.mp h
  change 0x30 ≤ c.toNat at hlo
  change c.toNat ≤ 0x39 at hhi
  have hhex : Digits.hexValue? c = some (c.toNat - 0x30) := by simp [Digits.hexValue?, hlo, hhi]
  have hlt : c.toNat - 0x30 < 10 := by omega
  rw [Digits.value?, hhex, Option.filter_some, if_pos (decide_eq_true hlt)]
  rfl

theorem isScriptSpace_of_isDigit {c : Char} (h : c.isDigit = true) : isScriptSpace c = false := by
  obtain ⟨hlo, hhi⟩ := Char.isDigit_iff_toNat.mp h
  change 0x30 ≤ c.toNat at hlo
  change c.toNat ≤ 0x39 at hhi
  have hranges : ∀ r ∈ scriptSpaceRanges, r.2 < 0x30 ∨ 0x39 < r.1 := by decide
  rw [isScriptSpace, inRanges, List.any_eq_false]
  intro r hr
  have hapart := hranges r hr
  rw [Bool.and_eq_true, decide_eq_true_iff, decide_eq_true_iff]
  omega

/-- Decimal digits denote the number they are the digits of. -/
theorem toNat_toDigits (n : Nat) :
    Digits.toNat 10 ((Nat.toDigits 10 n).filterMap (Digits.value? 10)) = n := by
  have hgeneral : ∀ (cs : List Char) (m : Nat), (∀ c ∈ cs, c.isDigit = true) →
      (cs.filterMap (Digits.value? 10)).foldl (fun n d => n * 10 + d) m =
        Nat.ofDigitChars 10 cs m := by
    intro cs
    induction cs with
    | nil => exact fun m _ => Nat.ofDigitChars_nil.symm
    | cons c cs ih =>
      intro m hcs
      obtain ⟨hc, hcs⟩ := List.forall_mem_cons.mp hcs
      rw [List.filterMap_cons_some (value?_of_isDigit hc), List.foldl_cons, ih _ hcs,
        Nat.ofDigitChars_cons, Nat.mul_comm]
  have hdigits : ∀ c ∈ Nat.toDigits 10 n, c.isDigit = true :=
    fun c hc => Nat.isDigit_of_mem_toDigits (by decide) (by decide) hc
  rw [Digits.toNat, hgeneral _ 0 hdigits, Nat.ofDigitChars_ten_toDigits]

namespace Reading

/-- The decimal digits of an integer, with a minus sign or without a sign. -/
def ofInteger (negative : Bool) (n : Nat) : Reading :=
  ⟨[], if negative then ['-'] else [], [], Nat.toDigits 10 n, []⟩

theorem negative_ofInteger (negative : Bool) (n : Nat) :
    (ofInteger negative n).negative = negative := by
  cases negative <;> rfl

theorem magnitude_ofInteger (negative : Bool) (n : Nat) :
    (ofInteger negative n).magnitude = n :=
  toNat_toDigits n

theorem text_ofInteger (negative : Bool) (n : Nat) :
    (ofInteger negative n).text = (Binary64.signed negative (Nat.toDigits 10 n)).toList := by
  rw [Binary64.signed, String.toList_ofList]
  cases negative with
  | false => exact List.append_nil _
  | true => exact congrArg (List.cons '-') (List.append_nil _)

theorem valid_ofInteger (negative : Bool) (n : Nat) : (ofInteger negative n).Valid := by
  have hdigits : ∀ c ∈ Nat.toDigits 10 n ++ [], c.isDigit = true := by
    rw [List.append_nil]
    exact fun c hc => Nat.isDigit_of_mem_toDigits (by decide) (by decide) hc
  have hhead : ∀ c ∈ (Nat.toDigits 10 n ++ []).head?, c.isDigit = true :=
    fun c hc => hdigits c (List.mem_of_mem_head? hc)
  -- A base mark would have a letter among the digits.
  have hmark (x : Char) (hx : x.isDigit = false) : ¬ ['0', x] <+: Nat.toDigits 10 n ++ [] := by
    intro hmark
    have := hdigits x (hmark.subset (by simp))
    rw [hx] at this
    cases this
  refine ⟨?_, ?_, ?_, Or.inr (Or.inr ⟨rfl, hmark 'x' rfl, hmark 'X' rfl⟩), ?_, ?_⟩
  · exact fun c hc => absurd hc List.not_mem_nil
  · cases negative with
    | false => exact fun c hc => isScriptSpace_of_isDigit (hhead c hc)
    | true =>
      intro c hc
      obtain rfl : '-' = c := Option.some.inj hc
      rfl
  · cases negative with
    | false =>
      refine Or.inr (Or.inr ⟨rfl, fun c hc => ⟨?_, ?_⟩⟩)
      · rintro rfl
        exact absurd (hhead '-' hc) (by decide)
      · rintro rfl
        exact absurd (hhead '+' hc) (by decide)
    | true => exact Or.inl rfl
  · intro c hc
    rw [← List.append_nil (ofInteger negative n).digits] at hc
    exact Option.isSome_iff_exists.mpr ⟨_, value?_of_isDigit (hdigits c hc)⟩
  · exact fun c hc => absurd hc (Option.not_mem_none c)

end Reading

/-! ## Integers are read back -/

open Binary64

theorem signedInt_and_ne_zero (negative : Bool) (n : Nat) :
    signedInt (negative && n ≠ 0) n = signedInt negative n := by
  rcases Nat.eq_zero_or_pos n with rfl | hpos
  · cases negative <;> rfl
  · rw [decide_eq_true (Nat.pos_iff_ne_zero.mp hpos), Bool.and_true]

theorem signedInt_natAbs (n : Int) : signedInt (n < 0) n.natAbs = n := by
  by_cases hneg : n < 0
  · rw [signedInt, decide_eq_true hneg, if_pos rfl]
    omega
  · rw [signedInt, decide_eq_false hneg, if_neg Bool.false_ne_true]
    omega

/-- The magnitudes of all integers in range are small. -/
theorem magnitude_le_of_range {negative : Bool} {n : Nat} {lo : Int} (hlo : -2147483648 ≤ lo)
    (h : lo ≤ signedInt negative n ∧ signedInt negative n ≤ 2147483647) : n ≤ 2 ^ 52 := by
  rw [signedInt] at h
  split at h <;> omega

/-- **An integer in range is read back from its text**, a zero without its sign. -/
theorem integerOr0_scriptText {negative : Bool} {n : Nat} {x : Binary64}
    (hx : x.IsInteger negative n) {lo : Int} (hlo : -2147483648 ≤ lo)
    (h : lo ≤ signedInt negative n ∧ signedInt negative n ≤ 2147483647) :
    (integerOr0 lo (some x.scriptText)).IsInteger (negative && n ≠ 0) n := by
  rw [hx.scriptText_eq (magnitude_le_of_range hlo h)]
  have hgives := (Reading.valid_ofInteger (negative && n ≠ 0) n).gives_integerOr0
    (Reading.text_ofInteger _ n) (by omega : -2 ^ 53 < lo)
  rw [Reading.Gives, Reading.value, Reading.negative_ofInteger, Reading.magnitude_ofInteger,
    signedInt_and_ne_zero, if_pos ⟨Nat.toDigits_ne_nil, h⟩] at hgives
  exact hgives

/-- Whatever stands in an attribute, what is read there is an integer in range. -/
theorem exists_integerOr0 {lo : Int} (hlo : -2147483648 ≤ lo) (hzero : lo ≤ 0)
    (attr : Option String) :
    ∃ negative n, (integerOr0 lo attr).IsInteger negative n ∧
      lo ≤ signedInt negative n ∧ signedInt negative n ≤ 2147483647 := by
  cases attr with
  | none => exact ⟨false, 0, isInteger_zero, hzero, by decide⟩
  | some s =>
    obtain ⟨r, hvalid, htext⟩ := Reading.exists_valid s.toList
    have hgives := hvalid.gives_integerOr0 htext (by omega : -2 ^ 53 < lo)
    rw [Reading.Gives] at hgives
    split at hgives
    next hrange => exact ⟨r.negative, r.magnitude, hgives, hrange.2⟩
    next => exact ⟨false, 0, hgives ▸ isInteger_zero, hzero, by decide⟩

/-! ## Values -/

/-- Equal as scripts compare values: the two zeros are equal, and what is not a number is equal to
nothing. -/
def Value.isEqual : Value → Value → Bool
  | .number x, .number y => x ≠ .nan && (x = y || x.isZero && y.isZero)
  | v, w => v = w

/-- An integer is equal to itself with the sign of zero dropped. -/
theorem isEqual_integer {negative : Bool} {n : Nat} {x y : Binary64} (hn : n ≤ 2 ^ 52)
    (hx : x.IsInteger negative n) (hy : y.IsInteger (negative && n ≠ 0) n) :
    (Value.number y).isEqual (.number x) = true := by
  have hnan : y ≠ .nan := by
    rintro rfl
    cases hy
  rw [Value.isEqual, Bool.and_eq_true, decide_eq_true_iff, Bool.or_eq_true, Bool.and_eq_true,
    decide_eq_true_iff]
  refine ⟨hnan, ?_⟩
  rcases Nat.eq_zero_or_pos n with rfl | hpos
  · exact Or.inr ⟨(hy.isZero_iff (by omega)).mpr rfl, (hx.isZero_iff (by omega)).mpr rfl⟩
  · rw [decide_eq_true (Nat.pos_iff_ne_zero.mp hpos), Bool.and_true] at hy
    exact Or.inl (hy.unique hx)

/-- What is read, written back and read again is the same integer but for the sign of zero, so it is
equal and has the same text. -/
theorem readBack_integer {lo : Int} (hlo : -2147483648 ≤ lo) (hzero : lo ≤ 0)
    (attr : Option String) :
    let x := integerOr0 lo attr
    let y := integerOr0 lo (some x.scriptText)
    (∃ negative n, x.IsInteger negative n ∧ y.IsInteger (negative && n ≠ 0) n ∧
      signedInt negative n ≤ 2147483647) ∧
    (Value.number y).isEqual (.number x) = true ∧ y.scriptText = x.scriptText := by
  intro x y
  obtain ⟨negative, n, hx, hrange⟩ := exists_integerOr0 hlo hzero attr
  have hy : y.IsInteger (negative && n ≠ 0) n := integerOr0_scriptText hx hlo hrange
  have hn := magnitude_le_of_range hlo hrange
  refine ⟨⟨negative, n, hx, hy, hrange.2⟩, isEqual_integer hn hx hy, ?_⟩
  rw [hy.scriptText_eq hn, hx.scriptText_eq hn, Bool.and_assoc, Bool.and_self]

namespace ReflectedType

/-- The values of the range of a type. -/
inductive Holds : ReflectedType → Value → Prop
  /-- truth values -/
  | boolean (value : Bool) : Holds .boolean (.boolean value)
  /-- strings -/
  | domString (value : String) : Holds .domString (.string value)
  /-- strings -/
  | usvString (value : String) : Holds .usvString (.string value)
  /-- integers of 32 bits with a sign -/
  | long {x : Binary64} {n : Int} (integer : x.IsInteger (n < 0) n.natAbs)
    (lower : -2147483648 ≤ n) (upper : n ≤ 2147483647) : Holds .long (.number x)
  /-- integers from zero, with the same upper bound -/
  | unsignedLong {x : Binary64} {n : Int} (integer : x.IsInteger (n < 0) n.natAbs)
    (lower : 0 ≤ n) (upper : n ≤ 2147483647) : Holds .unsignedLong (.number x)

/-- There is a number for every integer of the range of `long`. -/
theorem holds_long {n : Int} (lower : -2147483648 ≤ n) (upper : n ≤ 2147483647) :
    long.Holds (.number (ofInt n)) :=
  .long (isInteger_ofInt (by omega)) lower upper

/-- An `unsigned long` setter writes integers up to the bound as they are. -/
theorem set_unsignedLong {negative : Bool} {n : Nat} {x : Binary64} (h : x.IsInteger negative n)
    (hupper : signedInt negative n ≤ 2147483647) :
    unsignedLong.set (.number x) = .set x.scriptText := by
  have hsmall : ¬ x.exceeds maxLong = true := by
    rw [h.exceeds_iff]
    exact Int.not_lt.mpr hupper
  exact if_neg hsmall

/-- An integer of the range is read back from its text. -/
theorem integerOr0_of_isInteger {x : Binary64} {n lo : Int} (h : x.IsInteger (n < 0) n.natAbs)
    (hlo : -2147483648 ≤ lo) (hlower : lo ≤ n) (hupper : n ≤ 2147483647) :
    integerOr0 lo (some x.scriptText) = x := by
  have hread := integerOr0_scriptText h hlo (by rw [signedInt_natAbs]; exact ⟨hlower, hupper⟩)
  -- The sign of zero is dropped, and there is none here.
  have hsign : (decide (n < 0) && decide (n.natAbs ≠ 0)) = decide (n < 0) := by
    by_cases hneg : n < 0
    · rw [decide_eq_true hneg, decide_eq_true (by omega), Bool.and_true]
    · rw [decide_eq_false hneg, Bool.false_and]
  rw [hsign] at hread
  exact hread.unique h

theorem Holds.get_set {t : ReflectedType} {v : Value} (h : t.Holds v) :
    t.get (t.set v).apply = v := by
  cases h with
  | boolean value => cases value <;> rfl
  | domString value => rfl
  | usvString value => rfl
  | long integer lower upper =>
    exact congrArg Value.number (integerOr0_of_isInteger integer (by decide) lower upper)
  | unsignedLong integer lower upper =>
    rw [set_unsignedLong integer (by rwa [signedInt_natAbs])]
    exact congrArg Value.number (integerOr0_of_isInteger integer (by decide) lower upper)

/-- What is written for a number above the bound is the text of zero, and read as zero. -/
theorem get_set_of_exceeds {x : Binary64} (h : x.exceeds 2147483647 = true) :
    unsignedLong.get (unsignedLong.set (.number x)).apply = .number .zero := by
  have hset : unsignedLong.set (.number x) = .set "0" := if_pos h
  have htext : zero.scriptText = "0" := isInteger_zero.scriptText_eq (Nat.zero_le _)
  have hread : integerOr0 0 (some zero.scriptText) = zero :=
    integerOr0_of_isInteger (n := 0) isInteger_zero (by decide) (by decide) (by decide)
  rw [htext] at hread
  rw [hset]
  exact congrArg Value.number hread

/-- What is read, written back and read again is equal, and is written back as before. -/
theorem get_set_get (t : ReflectedType) (attr : Option String) :
    (t.get (t.set (t.get attr)).apply).isEqual (t.get attr) = true ∧
      t.set (t.get (t.set (t.get attr)).apply) = t.set (t.get attr) := by
  cases t with
  | boolean =>
    have hread : get .boolean (set .boolean (get .boolean attr)).apply = get .boolean attr :=
      (Holds.boolean attr.isSome).get_set
    rw [hread]
    exact ⟨decide_eq_true rfl, rfl⟩
  | domString => exact ⟨decide_eq_true rfl, rfl⟩
  | usvString => exact ⟨decide_eq_true rfl, rfl⟩
  | long =>
    obtain ⟨-, hequal, htext⟩ :=
      readBack_integer (by decide : -2147483648 ≤ minLong) (by decide) attr
    exact ⟨hequal, congrArg Write.set htext⟩
  | unsignedLong =>
    -- What is read is not above the bound, so the setter writes it as it is, both times.
    obtain ⟨⟨negative, n, hx, hy, hupper⟩, hequal, htext⟩ :=
      readBack_integer (by decide : -2147483648 ≤ (0 : Int)) (by decide) attr
    have hfirst : unsignedLong.set (unsignedLong.get attr) = _ := set_unsignedLong hx hupper
    have hsecond := set_unsignedLong hy (by rwa [signedInt_and_ne_zero])
    rw [hfirst]
    exact ⟨hequal, hsecond.trans (congrArg Write.set htext)⟩

/-- **What a setter writes the getter of the type reads.** A value of the range of a type is read
back as it is. A number above the bound of `unsigned long` is read back as zero. Whatever stands in
an attribute, the value that is read there can be written back: reading gives an equal value again,
and writing that one back writes the same. -/
theorem reads_back :
    (∀ (t : ReflectedType) (v : Value), t.Holds v → t.get (t.set v).apply = v) ∧
      (∀ x : Binary64, x.exceeds 2147483647 = true →
        unsignedLong.get (unsignedLong.set (.number x)).apply = .number .zero) ∧
      ∀ (t : ReflectedType) (attr : Option String),
        (t.get (t.set (t.get attr)).apply).isEqual (t.get attr) = true ∧
          t.set (t.get (t.set (t.get attr)).apply) = t.set (t.get attr) :=
  ⟨fun _ _ h => h.get_set, fun _ h => get_set_of_exceeds h, get_set_get⟩

/-- The least `long` is read back, and the infinity and 2147483647.5 are read back as zero from an
`unsigned long`. -/
theorem reads_back_bounds :
    (long.Holds (.number (ofInt (-2147483648))) ∧
      long.get (long.set (.number (ofInt (-2147483648)))).apply = .number (ofInt (-2147483648))) ∧
    ((infinite false).exceeds 2147483647 = true ∧
      unsignedLong.get (unsignedLong.set (.number (infinite false))).apply = .number .zero) ∧
    ((ofBits 0x41DFFFFFFFE00000).exceeds 2147483647 = true ∧
      unsignedLong.get (unsignedLong.set (.number (ofBits 0x41DFFFFFFFE00000))).apply =
        .number .zero) := by
  have hleast : long.Holds (.number (ofInt (-2147483648))) :=
    holds_long (by decide) (by decide)
  have hhalf : (ofBits 0x41DFFFFFFFE00000).exceeds 2147483647 = true := by decide +kernel
  exact ⟨⟨hleast, reads_back.1 _ _ hleast⟩, ⟨rfl, reads_back.2.1 _ rfl⟩,
    ⟨hhalf, reads_back.2.1 _ hhalf⟩⟩

end ReflectedType

end IdlBinding.Reflection
