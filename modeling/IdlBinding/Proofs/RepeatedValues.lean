import IdlBinding.Proofs.EnumerationSource
import Mathlib.Data.List.Nodup

/-!
# Enumerations that list a value twice

An enumeration is checked by one scan over its values, which ends at the first value that was seen
before. `FirstRepetition` says which value that is without a scan: the one at the smallest position
whose text stands at an earlier position too.

The two are brought together by the cut that the scan makes: before the value it found, nothing is
repeated (`firstRepeated_eq_some_iff`). So there is no module exactly if a text stands at two
positions, the error names the first repetition, and a module imports and declares nothing
(`generate_fails_at_first_repetition`).
-/

namespace IdlBinding.Enumeration

/-! ## The scan -/

/-- **The scan cuts the values** before the first repeated one. -/
theorem firstRepeated_eq_some_iff {seen values : List String} {v : String} :
    firstRepeated seen values = some v ↔ ∃ before after, values = before ++ v :: after ∧
      (v ∈ seen ∨ v ∈ before) ∧ firstRepeated seen before = none := by
  induction values generalizing seen with
  | nil => simp [firstRepeated]
  | cons w vs ih =>
    by_cases hw : w ∈ seen
    · have hscan (rest : List String) : firstRepeated seen (w :: rest) = some w := by
        rw [firstRepeated, if_pos (List.contains_iff_mem.mpr hw)]
      rw [hscan, Option.some.injEq]
      constructor
      · rintro rfl
        exact ⟨[], vs, rfl, .inl hw, rfl⟩
      · rintro ⟨before, after, hcut, -, hnone⟩
        cases before with
        | nil => exact (List.cons.inj hcut).1
        | cons b before =>
          obtain ⟨rfl, -⟩ := List.cons.inj hcut
          cases (hscan before).symm.trans hnone
    · have hscan (rest : List String) :
          firstRepeated seen (w :: rest) = firstRepeated (w :: seen) rest := by
        rw [firstRepeated, if_neg (fun h => hw (List.contains_iff_mem.mp h))]
      rw [hscan, ih]
      constructor
      · rintro ⟨before, after, rfl, hmem, hnone⟩
        refine ⟨w :: before, after, rfl, ?_, (hscan before).trans hnone⟩
        rw [List.mem_cons] at hmem ⊢
        rcases hmem with (rfl | hseen) | hbefore
        · exact .inr (.inl rfl)
        · exact .inl hseen
        · exact .inr (.inr hbefore)
      · rintro ⟨before, after, hcut, hmem, hnone⟩
        cases before with
        | nil =>
          obtain ⟨rfl, -⟩ := List.cons.inj hcut
          exact absurd (hmem.resolve_right List.not_mem_nil) hw
        | cons b before =>
          obtain ⟨rfl, rfl⟩ := List.cons.inj hcut
          refine ⟨before, after, rfl, ?_, (hscan before).symm.trans hnone⟩
          rw [List.mem_cons] at hmem ⊢
          rcases hmem with hseen | rfl | hbefore
          · exact .inl (.inr hseen)
          · exact .inl (.inl rfl)
          · exact .inr hbefore

/-! ## Positions -/

/-- The value at the smallest position whose text stands at an earlier position too. -/
structure FirstRepetition (values : List String) (position : Nat) (value : String) : Prop where
  /-- the value stands there -/
  here : values[position]? = some value
  /-- and at an earlier position -/
  earlier : ∃ i < position, values[i]? = some value
  /-- no smaller position repeats an earlier one -/
  smallest : ∀ j < position, ∀ i < j, values[i]? ≠ values[j]?

/-- The texts at two positions are the same only if the positions are. -/
theorem nodup_iff_getElem?_ne {values : List String} :
    values.Nodup ↔ ∀ j < values.length, ∀ i < j, values[i]? ≠ values[j]? := by
  rw [List.nodup_iff_getElem?_ne_getElem?]
  exact ⟨fun h j hj i hij => h i j hij hj, fun h i j hij hj => h j hj i hij⟩

/-- The first repetition is where the values before it are distinct and it is one of them. -/
theorem firstRepetition_iff {values : List String} {position : Nat} {value : String} :
    FirstRepetition values position value ↔ ∃ before after, values = before ++ value :: after ∧
      position = before.length ∧ value ∈ before ∧ before.Nodup := by
  constructor
  · rintro ⟨here, ⟨i, hi, hearlier⟩, smallest⟩
    obtain ⟨hlt, hvalue⟩ := List.getElem?_eq_some_iff.mp here
    have hlength : (values.take position).length = position :=
      List.length_take_of_le (Nat.le_of_lt hlt)
    have hfront (k : Nat) (hk : k < position) : (values.take position)[k]? = values[k]? :=
      List.getElem?_take_of_lt hk
    refine ⟨values.take position, values.drop (position + 1), ?_, hlength.symm, ?_, ?_⟩
    · rw [← hvalue, List.getElem_cons_drop, List.take_append_drop]
    · exact List.mem_of_getElem? ((hfront i hi).trans hearlier)
    · rw [nodup_iff_getElem?_ne, hlength]
      intro j hj k hk
      rw [hfront k (Nat.lt_trans hk hj), hfront j hj]
      exact smallest j hj k hk
  · rintro ⟨before, after, rfl, rfl, hmem, hnodup⟩
    have hfront (k : Nat) (hk : k < before.length) :
        (before ++ value :: after)[k]? = before[k]? := List.getElem?_append_left hk
    obtain ⟨i, hi, hearlier⟩ := List.getElem_of_mem hmem
    refine ⟨by simp, ⟨i, hi, ?_⟩, ?_⟩
    · rw [hfront i hi, List.getElem?_eq_getElem hi, hearlier]
    · intro j hj k hk
      rw [hfront k (Nat.lt_trans hk hj), hfront j hj]
      exact nodup_iff_getElem?_ne.mp hnodup j hj k hk

/-- **The scan finds the first repetition.** -/
theorem firstRepeated_eq_some_iff_firstRepetition {values : List String} {v : String} :
    firstRepeated [] values = some v ↔ ∃ position, FirstRepetition values position v := by
  simp only [firstRepeated_eq_some_iff, firstRepetition_iff, firstRepeated_eq_none_iff]
  constructor
  · rintro ⟨before, after, hcut, hmem, hnodup, -⟩
    exact ⟨_, before, after, hcut, rfl, hmem.resolve_left List.not_mem_nil, hnodup⟩
  · rintro ⟨position, before, after, hcut, -, hmem, hnodup⟩
    exact ⟨before, after, hcut, .inr hmem, hnodup, fun _ _ => List.not_mem_nil⟩

/-- Two values are repeated: `b` is listed again first, though `a` is listed before it. Upper and
lower case are different. -/
example : firstRepeated [] ["a", "A", "b", "b", "a"] = some "b" := by decide

/-! ## Generation -/

theorem generate_eq_error_iff (s : Settings) (e : Enumeration) (err : Error) :
    (e.generate s).result = .error err ↔ ∃ position value,
      FirstRepetition e.values position value ∧
        err = .duplicateEnumerationValue e.name value := by
  have hscan (v : String) : firstRepeated [] e.values = some v ↔
      ∃ position, FirstRepetition e.values position v := firstRepeated_eq_some_iff_firstRepetition
  rw [exists_comm]
  simp only [exists_and_right, ← hscan]
  rw [generate]
  rcases firstRepeated [] e.values with _ | v
  · simp
  · simp [eq_comm]

/-- **Generation fails exactly at a repetition.** There is no module if and only if some text stands
at two positions of the values. The error then names the enumeration and the first repetition. A
module is made if and only if the values are distinct, and it imports and declares nothing. -/
theorem generate_fails_at_first_repetition (s : Settings) (e : Enumeration) :
    ((∃ err, (e.generate s).result = .error err) ↔
      ∃ (i j : Nat) (value : String),
        i < j ∧ e.values[i]? = some value ∧ e.values[j]? = some value) ∧
    (∀ err, (e.generate s).result = .error err ↔ ∃ position value,
      FirstRepetition e.values position value ∧
        err = .duplicateEnumerationValue e.name value) ∧
    ∀ g, (e.generate s).result = .ok g ↔ e.values.Nodup ∧ g.source = e.source s ∧
      g.ledger.extension = s.extension ∧ g.ledger.imports = [] ∧ g.ledger.declarations = [] := by
  refine ⟨?_, generate_eq_error_iff s e, fun g => ?_⟩
  · constructor
    · rintro ⟨err, herr⟩
      obtain ⟨j, value, ⟨here, ⟨i, hi, hearlier⟩, -⟩, -⟩ := (generate_eq_error_iff s e err).mp herr
      exact ⟨i, j, value, hi, hearlier, here⟩
    · rintro ⟨i, j, value, hij, hi, hj⟩
      rcases hresult : (e.generate s).result with err | g
      · exact ⟨err, rfl⟩
      · -- A module would have distinct values.
        have hnodup := ((generate_eq_ok_iff s e g).mp hresult).1
        have hlt : j < e.values.length := (List.getElem?_eq_some_iff.mp hj).1
        exact absurd (hi.trans hj.symm) (nodup_iff_getElem?_ne.mp hnodup j hlt i hij)
  · rw [generate_eq_ok_iff]
    refine and_congr_right fun _ => ⟨?_, ?_⟩
    · rintro rfl
      exact ⟨rfl, rfl, rfl, rfl⟩
    · rintro ⟨hsource, hextension, himports, hdeclarations⟩
      obtain ⟨source, extension, imports, declarations⟩ := g
      subst hsource hextension himports hdeclarations
      rfl

end IdlBinding.Enumeration
