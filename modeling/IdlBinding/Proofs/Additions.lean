import IdlBinding.PropertyTable
import Mathlib.Data.Finset.Card

/-!
# What a run of additions leaves in a table

A table is a summary of the calls that added to it. At each place it lists the keys in the order of
their first calls, and keeps for each of them what the last call said. Calls at other places do not
matter, and nothing of an earlier call for the same key is left.

* `Properties.insert` is described by its effect on the keys and on look-ups;
* `Properties.listing` — enter properties one after another. Its keys are the entered ones without
  repetitions (`keys_listing`), and a key has what was entered for it last (`lookup_listing`);
* `Addition` — the calls as data. After a run of calls on a new table, the properties at a place are
  the listing of the calls there (`properties_run`), from which the main statement follows.
-/

namespace IdlBinding

/-! ## First occurrences -/

section FirstOccurrence

variable {α : Type} [DecidableEq α]

theorem eraseDups_concat (l : List α) (a : α) :
    (l ++ [a]).eraseDups = if a ∈ l then l.eraseDups else l.eraseDups ++ [a] := by
  rw [List.eraseDups_append, List.removeAll, List.filter_singleton]
  by_cases h : a ∈ l
  · simp [h]
  · simp [h, List.eraseDups_cons]

/-- Without its repetitions a list is in the order of first occurrences. -/
theorem pairwise_eraseDups (l : List α) :
    l.eraseDups.Pairwise fun a b => l.idxOf a < l.idxOf b := by
  induction l using List.reverseRecOn with
  | nil => exact List.Pairwise.nil
  | append_singleton l a ih =>
    have hbefore : l.eraseDups.Pairwise fun x y => (l ++ [a]).idxOf x < (l ++ [a]).idxOf y := by
      refine ih.imp_of_mem fun {x y} hx hy hlt => ?_
      rw [List.mem_eraseDups] at hx hy
      rwa [List.idxOf_append_of_mem hx, List.idxOf_append_of_mem hy]
    rw [eraseDups_concat]
    split
    next => exact hbefore
    next hnew =>
      refine List.pairwise_append.mpr ⟨hbefore, List.pairwise_singleton _ _, ?_⟩
      intro x hx y hy
      obtain rfl := List.mem_singleton.mp hy
      rw [List.mem_eraseDups] at hx
      rw [List.idxOf_append_of_mem hx, List.idxOf_append_of_notMem hnew]
      exact Nat.lt_add_right _ (List.idxOf_lt_length_of_mem hx)

theorem nodup_eraseDups (l : List α) : l.eraseDups.Nodup :=
  (pairwise_eraseDups l).imp fun hlt heq => absurd (heq ▸ hlt) (Nat.lt_irrefl _)

theorem length_eraseDups (l : List α) : l.eraseDups.length = l.toFinset.card := by
  have hmembers : l.eraseDups.toFinset = l.toFinset := by
    ext a
    simp
  rw [← hmembers, List.toFinset_card_of_nodup (nodup_eraseDups l)]

end FirstOccurrence

/-! ## Lists of properties -/

namespace Properties

/-- The keys, in the order of the entries. -/
def keys (ps : Properties) : List PropertyKey := ps.map Prod.fst

@[simp] theorem keys_cons (entry : PropertyKey × Property) (ps : Properties) :
    keys (entry :: ps) = entry.1 :: keys ps := rfl

/-- A new key goes to the end, and no other key moves. -/
theorem keys_insert (key : PropertyKey) (p : Property) (ps : Properties) :
    keys (insert key p ps) = if key ∈ keys ps then keys ps else keys ps ++ [key] := by
  induction ps with
  | nil => rfl
  | cons entry rest ih =>
    rw [insert]
    by_cases h : entry.1 = key
    · simp [h]
    · rw [if_neg h, keys_cons, keys_cons, ih]
      by_cases hmem : key ∈ keys rest
      · simp [hmem]
      · simp [hmem, Ne.symm h]

theorem lookup_cons (key : PropertyKey) (entry : PropertyKey × Property) (ps : Properties) :
    List.lookup key (entry :: ps) = if key = entry.1 then some entry.2 else ps.lookup key := by
  rw [List.lookup_cons]
  by_cases h : key = entry.1
  · rw [if_pos h, beq_iff_eq.mpr h]
  · rw [if_neg h, beq_false_of_ne h]

/-- The entered property replaces that of its key, and no other. -/
theorem lookup_insert (key other : PropertyKey) (p : Property) (ps : Properties) :
    (insert key p ps).lookup other = if other = key then some p else ps.lookup other := by
  induction ps with
  | nil => exact lookup_cons other (key, p) []
  | cons entry rest ih =>
    rw [insert]
    by_cases hkey : entry.1 = key
    · rw [if_pos hkey, lookup_cons, lookup_cons, hkey]
      by_cases h : other = key
      · simp [h]
      · simp [h]
    · rw [if_neg hkey, lookup_cons, lookup_cons, ih]
      by_cases h : other = entry.1
      · simp [h, hkey]
      · simp [h]

theorem isSome_lookup_iff {ps : Properties} {key : PropertyKey} :
    (ps.lookup key).isSome ↔ key ∈ ps.keys := by
  induction ps with
  | nil => simp [keys]
  | cons entry rest ih =>
    rw [lookup_cons, keys_cons, List.mem_cons]
    by_cases h : key = entry.1
    · simp [h]
    · rw [if_neg h, ih]
      simp [h]

/-- Entering a property again changes nothing. -/
theorem insert_insert (key : PropertyKey) (p : Property) (ps : Properties) :
    insert key p (insert key p ps) = insert key p ps := by
  induction ps with
  | nil => simp [insert]
  | cons entry rest ih =>
    by_cases h : entry.1 = key
    · simp [insert, h]
    · simp [insert, h, ih]

theorem mem_of_mem_insert {key : PropertyKey} {p : Property} {ps : Properties}
    {entry : PropertyKey × Property} (h : entry ∈ insert key p ps) :
    entry = (key, p) ∨ entry ∈ ps := by
  induction ps with
  | nil => exact Or.inl (List.mem_singleton.mp h)
  | cons first rest ih =>
    rw [insert] at h
    split at h
    next =>
      rcases List.mem_cons.mp h with rfl | hrest
      · exact Or.inl rfl
      · exact Or.inr (List.mem_cons_of_mem _ hrest)
    next =>
      rcases List.mem_cons.mp h with rfl | hrest
      · exact Or.inr List.mem_cons_self
      · exact (ih hrest).imp_right (List.mem_cons_of_mem _)

/-! ## Entering one after another -/

/-- Enter properties one after another. -/
def listing (log : List (PropertyKey × Property)) : Properties :=
  log.foldl (fun ps entry => insert entry.1 entry.2 ps) []

theorem listing_concat (log : List (PropertyKey × Property)) (entry : PropertyKey × Property) :
    listing (log ++ [entry]) = insert entry.1 entry.2 (listing log) := by
  rw [listing, List.foldl_append]
  rfl

/-- **Keys are in the order in which they were first entered**, each of them once. -/
theorem keys_listing (log : List (PropertyKey × Property)) :
    keys (listing log) = (log.map Prod.fst).eraseDups := by
  induction log using List.reverseRecOn with
  | nil => rfl
  | append_singleton log entry ih =>
    rw [listing_concat, keys_insert, ih, List.map_append, List.map_singleton, eraseDups_concat]
    simp only [List.mem_eraseDups]

/-- **A key has the property that was entered for it last.** -/
theorem lookup_listing (before : List (PropertyKey × Property)) (entry : PropertyKey × Property)
    {after : List (PropertyKey × Property)} (h : ∀ later ∈ after, later.1 ≠ entry.1) :
    (listing (before ++ entry :: after)).lookup entry.1 = some entry.2 := by
  induction after using List.reverseRecOn with
  | nil => rw [listing_concat, lookup_insert, if_pos rfl]
  | append_singleton after later ih =>
    obtain ⟨hafter, hlater⟩ := List.forall_mem_append.mp h
    have hne : entry.1 ≠ later.1 := (hlater later List.mem_cons_self).symm
    rw [← List.cons_append, ← List.append_assoc, listing_concat, lookup_insert, if_neg hne,
      ih hafter]

theorem mem_of_mem_listing {log : List (PropertyKey × Property)}
    {entry : PropertyKey × Property} (h : entry ∈ listing log) : entry ∈ log := by
  induction log using List.reverseRecOn with
  | nil => exact h
  | append_singleton log last ih =>
    rw [listing_concat] at h
    rcases mem_of_mem_insert h with rfl | hold
    · exact List.mem_append_right _ List.mem_cons_self
    · exact List.mem_append_left _ (ih hold)

end Properties

/-! ## Tables -/

namespace PropertyTable

theorem properties_add (t : PropertyTable) (place other : Place) (key : PropertyKey)
    (value : String) (overrides : Overrides) :
    (t.add place key value overrides).properties other =
      if place = other then
        Properties.insert key ⟨value, (baseShape key).override overrides⟩ (t.properties other)
      else t.properties other := by
  cases place <;> cases other <;> rfl

/-- What a table is made with. -/
def interface (t : PropertyTable) : String × Bool × Indent := (t.name, t.isGlobal, t.indent)

theorem interface_add (t : PropertyTable) (place : Place) (key : PropertyKey) (value : String)
    (overrides : Overrides) : (t.add place key value overrides).interface = t.interface := by
  cases place <;> rfl

end PropertyTable

/-- A call that adds a property to a table. -/
inductive Addition where
  /-- add at a place -/
  | property (place : Place) (key : PropertyKey) (value : String) (overrides : Overrides)
  /-- add on the interface object -/
  | staticProperty (key : PropertyKey) (value : String) (overrides : Overrides)

namespace Addition

/-- Perform a call. -/
def perform (t : PropertyTable) : Addition → PropertyTable
  | .property place key value overrides => t.add place key value overrides
  | .staticProperty key value overrides => t.add .static key value overrides

/-- The table after a run of calls. -/
def run (t : PropertyTable) (calls : List Addition) : PropertyTable := calls.foldl perform t

/-- Where a call adds. -/
def place : Addition → Place
  | .property place _ _ _ => place
  | .staticProperty _ _ _ => .static

/-- The key of the added property. -/
def key : Addition → PropertyKey
  | .property _ key _ _ => key
  | .staticProperty key _ _ => key

/-- The value of the added property. -/
def value : Addition → String
  | .property _ _ value _ => value
  | .staticProperty _ value _ => value

/-- The attributes that a call sets. -/
def overrides : Addition → Overrides
  | .property _ _ _ overrides => overrides
  | .staticProperty _ _ overrides => overrides

/-- The shape of the added property: the attributes that the call sets, and else those of an
assigned property, except that a symbol is not listed. -/
def shape (c : Addition) : Shape where
  configurable := c.overrides.configurable.getD true
  enumerable := c.overrides.enumerable.getD !c.key.isSymbol
  writable := c.overrides.writable.getD true

/-- The entry that a call makes. -/
def entry (c : Addition) : PropertyKey × Property := (c.key, ⟨c.value, c.shape⟩)

/-- One call enters its property at its place and leaves the others alone. -/
theorem properties_perform (t : PropertyTable) (c : Addition) (w : Place) :
    (c.perform t).properties w =
      if c.place = w then Properties.insert c.entry.1 c.entry.2 (t.properties w)
      else t.properties w := by
  cases c with
  | property place key value overrides => exact t.properties_add place w key value overrides
  | staticProperty key value overrides => exact t.properties_add .static w key value overrides

/-- **After a run** the properties at a place list the calls there, on a table that was new. -/
theorem properties_run (s : Settings) (name : String) (isGlobal : Bool) (calls : List Addition)
    (w : Place) : (run (.new s name isGlobal) calls).properties w =
      Properties.listing ((calls.filter fun c => c.place = w).map entry) := by
  induction calls using List.reverseRecOn with
  | nil => cases w <;> rfl
  | append_singleton calls c ih =>
    have hstep : run (.new s name isGlobal) (calls ++ [c]) =
        c.perform (run (.new s name isGlobal) calls) := by
      rw [run, List.foldl_append]
      rfl
    rw [hstep, properties_perform, ih, List.filter_append]
    by_cases h : c.place = w
    · rw [if_pos h, List.filter_singleton, decide_eq_true h, cond_true, List.map_append,
        List.map_singleton, Properties.listing_concat]
    · rw [if_neg h, List.filter_singleton, decide_eq_false h, cond_false, List.append_nil]

theorem interface_run (t : PropertyTable) (calls : List Addition) :
    (run t calls).interface = t.interface := by
  induction calls generalizing t with
  | nil => rfl
  | cons c calls ih =>
    rw [run, List.foldl_cons]
    refine (ih (c.perform t)).trans ?_
    cases c with
    | property place key value overrides => exact t.interface_add place key value overrides
    | staticProperty key value overrides => exact t.interface_add .static key value overrides

/-- The keys that a run uses with a place, in the order of its calls. -/
def usedKeys (calls : List Addition) (w : Place) : List PropertyKey :=
  (calls.filter fun c => c.place = w).map key

theorem mem_usedKeys {calls : List Addition} {w : Place} {k : PropertyKey} :
    k ∈ usedKeys calls w ↔ ∃ c ∈ calls, c.place = w ∧ c.key = k := by
  simp [usedKeys, and_assoc]

/-- The keys at a place are those used with it, each in the position of its first call. -/
theorem keys_run (s : Settings) (name : String) (isGlobal : Bool) (calls : List Addition)
    (w : Place) : ((run (.new s name isGlobal) calls).properties w).keys =
      (usedKeys calls w).eraseDups := by
  rw [properties_run, Properties.keys_listing, List.map_map]
  rfl

/-- The last call for a key at a place decides. -/
theorem get?_run (s : Settings) (name : String) (isGlobal : Bool) {before after : List Addition}
    {c : Addition} (hlast : ∀ c' ∈ after, c'.place = c.place → c'.key ≠ c.key) :
    (run (.new s name isGlobal) (before ++ c :: after)).get? c.place c.key =
      some ⟨c.value, c.shape⟩ := by
  have hafter : ∀ later ∈ (after.filter fun c' => c'.place = c.place).map entry,
      later.1 ≠ c.entry.1 := by
    intro later hmem
    obtain ⟨c', hc', rfl⟩ := List.mem_map.mp hmem
    obtain ⟨hin, hplace⟩ := List.mem_filter.mp hc'
    exact hlast c' hin (of_decide_eq_true hplace)
  rw [PropertyTable.get?, properties_run, List.filter_append,
    List.filter_cons_of_pos (by exact decide_eq_true rfl), List.map_append, List.map_cons]
  exact Properties.lookup_listing _ c.entry hafter

/-- **A table is what its calls say.** After a run of calls on a new table, at every place `w`:

* a key has a property exactly when some call used it there, and its value and shape are those of
  the last such call alone;
* there are as many properties as different keys;
* they are in the order of the first calls for their keys;
* the calls at other places could be left out. -/
theorem run_summarizes_calls (s : Settings) (name : String) (isGlobal : Bool)
    (calls : List Addition) (w : Place) :
    let t := run (.new s name isGlobal) calls
    (∀ k, (t.get? w k).isSome ↔ ∃ c ∈ calls, c.place = w ∧ c.key = k) ∧
    (∀ before c after, calls = before ++ c :: after → c.place = w →
      (∀ c' ∈ after, c'.place = w → c'.key ≠ c.key) →
      t.get? w c.key = some
        { value := c.value
          shape :=
            { configurable := c.overrides.configurable.getD true
              enumerable := c.overrides.enumerable.getD !c.key.isSymbol
              writable := c.overrides.writable.getD true } }) ∧
    t.size w = (usedKeys calls w).toFinset.card ∧
    (t.properties w).keys.Pairwise
      (fun a b => (usedKeys calls w).idxOf a < (usedKeys calls w).idxOf b) ∧
    t.properties w =
      (run (.new s name isGlobal) (calls.filter fun c => c.place = w)).properties w := by
  intro t
  have hkeys : (t.properties w).keys = (usedKeys calls w).eraseDups :=
    keys_run s name isGlobal calls w
  refine ⟨fun k => ?_, ?_, ?_, ?_, ?_⟩
  · rw [PropertyTable.get?, Properties.isSome_lookup_iff, hkeys, List.mem_eraseDups, mem_usedKeys]
  · rintro before c after hcalls rfl hlast
    subst hcalls
    exact get?_run s name isGlobal hlast
  · rw [← length_eraseDups, ← hkeys, Properties.keys, List.length_map]
    rfl
  · rw [hkeys]
    exact pairwise_eraseDups _
  · simp only [t, properties_run, List.filter_filter, Bool.and_self]

/-- A key that is added again keeps its position. Its attributes are set anew: the second call says
nothing of them. -/
example : (run (.new {} "Node" false)
      [.property .prototype (.text "a") "1" { writable := some false },
        .property .prototype (.text "b") "2" {},
        .property .prototype (.text "a") "3" {}]).properties .prototype =
    [(.text "a", ⟨"3", ⟨true, true, true⟩⟩), (.text "b", ⟨"2", ⟨true, true, true⟩⟩)] := by
  decide

end Addition

end IdlBinding
