import IdlBinding.Ledger
import Mathlib.Data.List.Nodup

/-!
# Bindings that bind a name once

The theory of one list of bindings, apart from the ledger that holds two of them.

* `names` — the bound names, in the order of entry;
* `put`, `putAll` — enter bindings whose names are not bound yet; the list only grows at its end,
  and as an operation on lists `putAll` is associative;
* `Admits`, `admitted` — a binding does not clash, and the bindings up to the first that does;
* `Compatible` — two lists never bind one name to two values. For a list that binds its names
  once, this is when all its bindings are admitted by the other.
-/

namespace IdlBinding.Bindings

/-! ## Names and values -/

/-- The bound names, in the order of entry. -/
def names (b : Bindings) : List String := b.map Prod.fst

@[simp] theorem names_nil : names [] = [] := rfl

@[simp] theorem names_cons (entry : String × String) (b : Bindings) :
    names (entry :: b) = entry.1 :: names b := rfl

@[simp] theorem names_append (a b : Bindings) : names (a ++ b) = names a ++ names b :=
  List.map_append

theorem lookup_cons_self (name value : String) (b : Bindings) :
    List.lookup name ((name, value) :: b) = some value := by
  rw [List.lookup_cons, beq_self_eq_true]

theorem lookup_cons_ne {name : String} {entry : String × String} (h : name ≠ entry.1)
    (b : Bindings) : List.lookup name (entry :: b) = b.lookup name := by
  rw [List.lookup_cons, beq_false_of_ne h]

theorem lookup_eq_none_iff {b : Bindings} {name : String} :
    b.lookup name = none ↔ name ∉ b.names := by
  rw [List.lookup_eq_none_iff, names, List.mem_map]
  refine ⟨?_, fun h entry hmem => ?_⟩
  · rintro h ⟨entry, hmem, rfl⟩
    exact absurd rfl (bne_iff_ne.mp (h entry hmem))
  · exact bne_iff_ne.mpr fun he => h ⟨entry, hmem, he.symm⟩

/-- A bound name has a value. -/
theorem exists_lookup {b : Bindings} {name : String} (h : name ∈ b.names) :
    ∃ value, b.lookup name = some value := by
  rcases hv : b.lookup name with _ | value
  · exact absurd h (lookup_eq_none_iff.mp hv)
  · exact ⟨value, rfl⟩

theorem mem_of_lookup {b : Bindings} {name value : String} (h : b.lookup name = some value) :
    (name, value) ∈ b := by
  obtain ⟨front, back, rfl, -⟩ := List.lookup_eq_some_iff.mp h
  exact List.mem_append_right _ List.mem_cons_self

theorem mem_names_of_lookup {b : Bindings} {name value : String}
    (h : b.lookup name = some value) : name ∈ b.names :=
  List.mem_map_of_mem (mem_of_lookup h)

/-- Where names are bound once, every entry is found. -/
theorem lookup_eq_some_iff {b : Bindings} (hb : b.names.Nodup) {name value : String} :
    b.lookup name = some value ↔ (name, value) ∈ b := by
  refine ⟨mem_of_lookup, fun h => ?_⟩
  induction b with
  | nil => cases h
  | cons entry rest ih =>
    obtain ⟨hfresh, hrest⟩ := List.nodup_cons.mp hb
    rcases List.mem_cons.mp h with rfl | h
    · exact lookup_cons_self name value rest
    · have hne : name ≠ entry.1 := fun he => hfresh (he ▸ List.mem_map_of_mem h)
      rw [lookup_cons_ne hne]
      exact ih hrest h

/-- What is bound stays bound when a list grows at its end. -/
theorem lookup_mono {a b : Bindings} (h : a <+: b) {name value : String}
    (hv : a.lookup name = some value) : b.lookup name = some value := by
  obtain ⟨more, rfl⟩ := h
  rw [List.lookup_append, hv, Option.some_or]

/-! ## Entering bindings -/

/-- Enter a binding, unless its name is bound. -/
def put (b : Bindings) (entry : String × String) : Bindings :=
  match b.lookup entry.1 with
  | some _ => b
  | none => b ++ [entry]

theorem put_of_mem {b : Bindings} {entry : String × String} (h : entry.1 ∈ b.names) :
    b.put entry = b := by
  obtain ⟨value, hv⟩ := exists_lookup h
  rw [put, hv]

theorem put_of_notMem {b : Bindings} {entry : String × String} (h : entry.1 ∉ b.names) :
    b.put entry = b ++ [entry] := by
  rw [put, lookup_eq_none_iff.mpr h]

theorem prefix_put (b : Bindings) (entry : String × String) : b <+: b.put entry := by
  by_cases h : entry.1 ∈ b.names
  · exact (put_of_mem h).symm ▸ List.prefix_rfl
  · rw [put_of_notMem h]
    exact List.prefix_append b [entry]

theorem mem_names_put {b : Bindings} {entry : String × String} {name : String} :
    name ∈ (b.put entry).names ↔ name ∈ b.names ∨ name = entry.1 := by
  by_cases h : entry.1 ∈ b.names
  · rw [put_of_mem h]
    exact ⟨Or.inl, fun hn => hn.elim id fun he => he ▸ h⟩
  · rw [put_of_notMem h, names_append, List.mem_append]
    simp

theorem nodup_put {b : Bindings} (hb : b.names.Nodup) (entry : String × String) :
    (b.put entry).names.Nodup := by
  by_cases h : entry.1 ∈ b.names
  · rw [put_of_mem h]
    exact hb
  · rw [put_of_notMem h, names_append, List.nodup_append]
    refine ⟨hb, by simp, fun name hn other ho => ?_⟩
    obtain rfl : other = entry.1 := by simpa using ho
    exact fun he => h (he ▸ hn)

/-- Another name keeps its value. -/
theorem lookup_put_ne (b : Bindings) {entry : String × String} {name : String}
    (h : name ≠ entry.1) : (b.put entry).lookup name = b.lookup name := by
  by_cases hb : entry.1 ∈ b.names
  · rw [put_of_mem hb]
  · rw [put_of_notMem hb, List.lookup_append, lookup_cons_ne h, List.lookup_nil, Option.or_none]

/-- The entered name has the value it had, or else the entered one. -/
theorem lookup_put_self (b : Bindings) (name value : String) :
    (b.put (name, value)).lookup name = (b.lookup name).or (some value) := by
  by_cases hb : name ∈ b.names
  · obtain ⟨existing, hv⟩ := exists_lookup hb
    rw [put_of_mem hb, hv, Option.some_or]
  · rw [put_of_notMem hb, List.lookup_append, lookup_cons_self]

/-- Enter bindings one after another, passing over those whose names are bound. -/
def putAll (b entries : Bindings) : Bindings := entries.foldl put b

@[simp] theorem putAll_nil (b : Bindings) : b.putAll [] = b := rfl

@[simp] theorem putAll_cons (b : Bindings) (entry : String × String) (rest : Bindings) :
    b.putAll (entry :: rest) = (b.put entry).putAll rest := rfl

theorem putAll_append (b front back : Bindings) :
    b.putAll (front ++ back) = (b.putAll front).putAll back :=
  List.foldl_append

theorem prefix_putAll (b entries : Bindings) : b <+: b.putAll entries := by
  induction entries generalizing b with
  | nil => exact List.prefix_rfl
  | cons entry rest ih => exact (prefix_put b entry).trans (ih (b.put entry))

theorem mem_names_putAll {b entries : Bindings} {name : String} :
    name ∈ (b.putAll entries).names ↔ name ∈ b.names ∨ name ∈ entries.names := by
  induction entries generalizing b with
  | nil => simp
  | cons entry rest ih =>
    rw [putAll_cons, ih, mem_names_put, names_cons, List.mem_cons, or_assoc]

theorem nodup_putAll {b : Bindings} (hb : b.names.Nodup) (entries : Bindings) :
    (b.putAll entries).names.Nodup := by
  induction entries generalizing b with
  | nil => exact hb
  | cons entry rest ih => exact ih (nodup_put hb entry)

/-- The first list decides, and the second where the first is silent. -/
theorem lookup_putAll (b entries : Bindings) (name : String) :
    (b.putAll entries).lookup name = (b.lookup name).or (entries.lookup name) := by
  induction entries generalizing b with
  | nil => rw [putAll_nil, List.lookup_nil, Option.or_none]
  | cons entry rest ih =>
    obtain ⟨key, value⟩ := entry
    rw [putAll_cons, ih]
    by_cases h : name = key
    · subst h
      rw [lookup_put_self, lookup_cons_self, Option.or_assoc, Option.some_or]
    · rw [lookup_put_ne b h, lookup_cons_ne h]

/-- Every entry of the longer list comes from one of the two. -/
theorem mem_putAll {b entries : Bindings} {entry : String × String}
    (h : entry ∈ b.putAll entries) : entry ∈ b ∨ entry ∈ entries := by
  induction entries generalizing b with
  | nil => exact Or.inl h
  | cons first rest ih =>
    rcases ih h with hp | hr
    · by_cases hb : first.1 ∈ b.names
      · rw [put_of_mem hb] at hp
        exact Or.inl hp
      · rw [put_of_notMem hb, List.mem_append, List.mem_singleton] at hp
        rcases hp with hp | rfl
        · exact Or.inl hp
        · exact Or.inr List.mem_cons_self
    · exact Or.inr (List.mem_cons_of_mem first hr)

/-- Bindings whose names are bound already leave no trace. -/
theorem putAll_of_subset {b entries : Bindings} (h : ∀ name ∈ entries.names, name ∈ b.names) :
    b.putAll entries = b := by
  induction entries with
  | nil => rfl
  | cons entry rest ih =>
    rw [putAll_cons, put_of_mem (h entry.1 List.mem_cons_self)]
    exact ih fun name hn => h name (List.mem_cons_of_mem _ hn)

/-- Bindings with new names are appended as they are. -/
theorem putAll_of_disjoint {b entries : Bindings} (he : entries.names.Nodup)
    (h : ∀ name ∈ entries.names, name ∉ b.names) : b.putAll entries = b ++ entries := by
  induction entries generalizing b with
  | nil => simp
  | cons entry rest ih =>
    obtain ⟨hfresh, hrest⟩ := List.nodup_cons.mp he
    rw [putAll_cons, put_of_notMem (h entry.1 List.mem_cons_self), ih hrest]
    · rw [List.append_assoc, List.singleton_append]
    · intro name hn hb
      rw [names_append, List.mem_append] at hb
      rcases hb with hb | hb
      · exact h name (List.mem_cons_of_mem _ hn) hb
      · obtain rfl : name = entry.1 := by simpa using hb
        exact hfresh hn

/-- Lists are put together in either grouping, the order of entry included. -/
theorem putAll_assoc (a b c : Bindings) : a.putAll (b.putAll c) = (a.putAll b).putAll c := by
  induction c generalizing b with
  | nil => rfl
  | cons entry rest ih =>
    rw [putAll_cons, putAll_cons, ih]
    congr 1
    -- The entry is passed over on the left exactly when `b` binds its name; if only `a` does, it
    -- is passed over later, when the two are put together.
    by_cases h : entry.1 ∈ b.names
    · rw [put_of_mem h, put_of_mem (mem_names_putAll.mpr (Or.inr h))]
    · rw [put_of_notMem h, putAll_append, putAll_cons, putAll_nil]

/-! ## Clashes -/

/-- The name is not bound, or it is bound to the same value. -/
def Admits (b : Bindings) (entry : String × String) : Prop :=
  b.lookup entry.1 = none ∨ b.lookup entry.1 = some entry.2

instance (b : Bindings) (entry : String × String) : Decidable (b.Admits entry) :=
  inferInstanceAs (Decidable (_ ∨ _))

theorem admits_iff {b : Bindings} {name value : String} :
    b.Admits (name, value) ↔ ∀ existing, b.lookup name = some existing → existing = value := by
  refine ⟨?_, fun h => ?_⟩
  · rintro (h | h) existing he
    · rw [h] at he
      cases he
    · exact Option.some.inj (he.symm.trans h)
  · rcases hv : b.lookup name with _ | existing
    · exact Or.inl hv
    · exact Or.inr (h existing hv ▸ hv)

/-- An admitted binding is there once it is entered. -/
theorem lookup_put_of_admits {b : Bindings} {name value : String} (h : b.Admits (name, value)) :
    (b.put (name, value)).lookup name = some value := by
  rw [lookup_put_self]
  rcases h with h | h <;> rw [h]
  · exact Option.none_or
  · exact Option.some_or

/-- The bindings up to the first clash, with the earlier ones entered. -/
def admitted (b : Bindings) : Bindings → Bindings
  | [] => []
  | entry :: rest => if b.Admits entry then entry :: admitted (b.put entry) rest else []

theorem admitted_cons_of_admits {b : Bindings} {entry : String × String} (h : b.Admits entry)
    (rest : Bindings) : b.admitted (entry :: rest) = entry :: (b.put entry).admitted rest := by
  rw [admitted, if_pos h]

theorem admitted_cons_of_clash {b : Bindings} {entry : String × String} (h : ¬ b.Admits entry)
    (rest : Bindings) : b.admitted (entry :: rest) = [] := by
  rw [admitted, if_neg h]

theorem mem_of_mem_admitted {b entries : Bindings} {entry : String × String}
    (h : entry ∈ b.admitted entries) : entry ∈ entries := by
  induction entries generalizing b with
  | nil => exact h
  | cons first rest ih =>
    by_cases hf : b.Admits first
    · rw [admitted_cons_of_admits hf] at h
      rcases List.mem_cons.mp h with rfl | h
      · exact List.mem_cons_self
      · exact List.mem_cons_of_mem _ (ih h)
    · rw [admitted_cons_of_clash hf] at h
      cases h

/-- No name has one value in `a` and another in `b`. -/
def Compatible (a b : Bindings) : Prop :=
  ∀ name x y, a.lookup name = some x → b.lookup name = some y → x = y

theorem Compatible.refl (b : Bindings) : b.Compatible b :=
  fun _ _ _ hx hy => Option.some.inj (hx.symm.trans hy)

theorem Compatible.symm {a b : Bindings} (h : a.Compatible b) : b.Compatible a :=
  fun name x y hx hy => (h name y x hy hx).symm

/-- A list that binds its first name only once is compatible when its head is admitted and the
rest is compatible with what is there then. -/
theorem compatible_cons_iff {b rest : Bindings} {entry : String × String}
    (hfresh : entry.1 ∉ rest.names) :
    b.Compatible (entry :: rest) ↔ b.Admits entry ∧ (b.put entry).Compatible rest := by
  obtain ⟨key, value⟩ := entry
  refine ⟨fun h => ⟨?_, fun name x y hx hy => ?_⟩, ?_⟩
  · exact admits_iff.mpr fun existing he => h key existing value he (lookup_cons_self ..)
  · -- Entering the head can only touch the name of the head, which the rest does not bind.
    have hne : name ≠ key := fun he => hfresh (he ▸ mem_names_of_lookup hy)
    rw [lookup_put_ne b hne] at hx
    exact h name x y hx (by rw [lookup_cons_ne hne]; exact hy)
  · rintro ⟨hentry, hrest⟩ name x y hx hy
    by_cases he : name = key
    · subst he
      rw [lookup_cons_self] at hy
      exact (admits_iff.mp hentry x hx).trans (Option.some.inj hy)
    · rw [lookup_cons_ne he] at hy
      exact hrest name x y (by rw [lookup_put_ne b he]; exact hx) hy

/-- **All bindings are admitted** exactly when the lists are compatible. -/
theorem admitted_eq_self_iff {b entries : Bindings} (he : entries.names.Nodup) :
    b.admitted entries = entries ↔ b.Compatible entries := by
  -- On the entries, for every `b`: after the head the rest meets the list with the head entered.
  induction entries generalizing b with
  | nil =>
    refine ⟨fun _ name x y _ hy => ?_, fun _ => rfl⟩
    cases hy
  | cons entry rest ih =>
    obtain ⟨hfresh, hrest⟩ := List.nodup_cons.mp he
    rw [compatible_cons_iff hfresh, ← ih hrest]
    by_cases h : b.Admits entry
    · rw [admitted_cons_of_admits h, List.cons_inj_right]
      exact ⟨fun heq => ⟨h, heq⟩, And.right⟩
    · rw [admitted_cons_of_clash h]
      refine ⟨fun heq => ?_, fun hb => absurd hb.1 h⟩
      cases heq

/-- Compatible lists together bind what either binds. -/
theorem lookup_putAll_eq_some_iff {a b : Bindings} (hab : a.Compatible b) {name value : String} :
    (a.putAll b).lookup name = some value ↔
      a.lookup name = some value ∨ b.lookup name = some value := by
  rw [lookup_putAll, Option.or_eq_some_iff]
  refine ⟨Or.imp_right And.right, ?_⟩
  rintro (ha | hb)
  · exact Or.inl ha
  · -- The first list decides, but a value that it has for the name is the one of the second.
    rcases hv : a.lookup name with _ | v
    · exact Or.inr ⟨rfl, hb⟩
    · exact Or.inl (congrArg some (hab name v value hv hb))

/-- What two compatible lists hold together is compatible with a third when both are. -/
theorem putAll_compatible_iff {a b c : Bindings} (hab : a.Compatible b) :
    (a.putAll b).Compatible c ↔ a.Compatible c ∧ b.Compatible c := by
  refine ⟨fun h => ⟨fun name x y hx hy => h name x y ?_ hy, fun name x y hx hy => h name x y ?_ hy⟩,
    ?_⟩
  · exact (lookup_putAll_eq_some_iff hab).mpr (Or.inl hx)
  · exact (lookup_putAll_eq_some_iff hab).mpr (Or.inr hx)
  · rintro ⟨ha, hb⟩ name x y hx hy
    rcases (lookup_putAll_eq_some_iff hab).mp hx with hx | hx
    · exact ha name x y hx hy
    · exact hb name x y hx hy

/-! ## Agreement -/

/-- Lists that bind their names once agree when they bind the same. -/
theorem agrees_of_lookup {a b : Bindings} (ha : a.names.Nodup) (hb : b.names.Nodup)
    (h : ∀ name value, a.lookup name = some value ↔ b.lookup name = some value) :
    a.agrees b = true := by
  have hmem : ∀ entry, entry ∈ a ↔ entry ∈ b := fun entry => by
    rw [← lookup_eq_some_iff ha, h, lookup_eq_some_iff hb]
  have hperm : a.Perm b :=
    (List.perm_ext_iff_of_nodup (ha.of_map Prod.fst) (hb.of_map Prod.fst)).mpr hmem
  rw [agrees, Bool.and_eq_true, beq_iff_eq, List.all_eq_true]
  refine ⟨hperm.length_eq, fun entry he => ?_⟩
  rw [beq_iff_eq, lookup_eq_some_iff hb]
  exact (hmem entry).mp he

end IdlBinding.Bindings
