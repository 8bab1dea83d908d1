import IdlBinding.Proofs.Rendering

/-!
# Constants on a table

A constant is added on the interface object and, unless it is static, where members go by default.
What this makes of a run of constants on a new table is read off the places one by one:

* one constant enters at most one property at each place (`properties_install`), a static one the
  same property twice;
* after a run each place lists the constants that go there (`properties_installEach`). `Listed` says
  what that means without reference to the calls: the order is that of first occurrences, and the
  value is that of the last constant with the name.

The keys of constants are texts, so the table can be rendered. Without static constants the two
places never differ, and the two statements differ in their targets only.
-/

namespace IdlBinding

namespace PropertyTable

theorem defaultPlace_ne_static (t : PropertyTable) : t.defaultPlace ≠ .static := by
  rw [defaultPlace]
  split
  · decide
  · decide

/-- Members that are not static go to the default place. -/
theorem placeFor_eq (t : PropertyTable) (m : Modifier) :
    t.placeFor m = if m = .static then .static else t.defaultPlace := by
  rw [placeFor, defaultPlace, Modifier.isOnInstance]
  by_cases h : m = .static
  · rw [if_pos h, if_pos h]
  · simp [h]

theorem defaultPlace_of_interface {t t' : PropertyTable} (h : t.interface = t'.interface) :
    t.defaultPlace = t'.defaultPlace := by
  have hglobal : t.isGlobal = t'.isGlobal := congrArg (·.2.1) h
  rw [defaultPlace, defaultPlace, hglobal]

end PropertyTable

namespace Constant

/-! ## One constant -/

/-- The property of a constant: its literal, which is listed and fixed. -/
def property (c : Constant) : Property := ⟨c.value.literal, ⟨false, true, false⟩⟩

/-- The constant is added at a place, where `home` is the default place. -/
def GoesTo (c : Constant) (home w : Place) : Prop :=
  w = .static ∨ w = home ∧ c.special ≠ .static

instance (c : Constant) (home w : Place) : Decidable (c.GoesTo home w) :=
  inferInstanceAs (Decidable (w = .static ∨ w = home ∧ c.special ≠ .static))

theorem interface_install (s : Settings) (c : Constant) (t : PropertyTable) :
    (c.install s t).table.interface = t.interface := by
  rw [install, PropertyTable.interface_add, PropertyTable.interface_add]

/-- Where a constant goes, its property is entered once. -/
theorem properties_install (s : Settings) (c : Constant) (t : PropertyTable) (w : Place) :
    (c.install s t).table.properties w =
      if c.GoesTo t.defaultPlace w then Properties.insert c.key c.property (t.properties w)
      else t.properties w := by
  have hshape : (PropertyTable.baseShape c.key).override overrides = ⟨false, true, false⟩ := rfl
  rw [install, PropertyTable.properties_add, PropertyTable.properties_add, hshape,
    t.placeFor_eq c.special, ← property]
  by_cases hw : w = .static
  · have hgoes : c.GoesTo t.defaultPlace w := Or.inl hw
    rw [if_pos hgoes, if_pos hw.symm, Properties.insert_insert, ite_self]
  · rw [if_neg (Ne.symm hw)]
    by_cases hstatic : c.special = .static
    · have hnot : ¬ c.GoesTo t.defaultPlace w := by simp [GoesTo, hw, hstatic]
      rw [if_pos hstatic, if_neg (Ne.symm hw), if_neg hnot]
    · rw [if_neg hstatic]
      by_cases hhome : t.defaultPlace = w
      · have hgoes : c.GoesTo t.defaultPlace w := Or.inr ⟨hhome.symm, hstatic⟩
        rw [if_pos hhome, if_pos hgoes]
      · have hnot : ¬ c.GoesTo t.defaultPlace w := by simp [GoesTo, hw, Ne.symm hhome]
        rw [if_neg hhome, if_neg hnot]

/-! ## A run of constants -/

/-- Install constants one after another, each with settings of its own. The ledgers are what the
calls return. -/
def installEach (t : PropertyTable) : List (Settings × Constant) → PropertyTable × List Ledger
  | [] => (t, [])
  | (s, c) :: calls =>
    let first := c.install s t
    let (last, ledgers) := installEach first.table calls
    (last, first.ledger :: ledgers)

theorem interface_installEach (t : PropertyTable) (calls : List (Settings × Constant)) :
    (installEach t calls).1.interface = t.interface := by
  induction calls generalizing t with
  | nil => rfl
  | cons call calls ih => exact (ih _).trans (interface_install call.1 call.2 t)

/-- No constant needs anything. -/
theorem ledgers_installEach (t : PropertyTable) (calls : List (Settings × Constant)) :
    (installEach t calls).2 = calls.map fun call => call.1.ledger := by
  induction calls generalizing t with
  | nil => rfl
  | cons call calls ih => exact congrArg (call.1.ledger :: ·) (ih _)

/-- The entries of constants, in their order. -/
def entries (cs : List Constant) : List (PropertyKey × Property) :=
  cs.map fun c => (c.key, c.property)

/-- **After a run** each place has the constants that go there entered one after another. -/
theorem properties_installEach (t : PropertyTable) (calls : List (Settings × Constant))
    (w : Place) :
    (installEach t calls).1.properties w =
      (entries ((calls.map Prod.snd).filter fun c => c.GoesTo t.defaultPlace w)).foldl
        (fun ps entry => Properties.insert entry.1 entry.2 ps) (t.properties w) := by
  induction calls generalizing t with
  | nil => rfl
  | cons call calls ih =>
    obtain ⟨s, c⟩ := call
    have hhome := PropertyTable.defaultPlace_of_interface (interface_install s c t)
    have hstep : (installEach t ((s, c) :: calls)).1 =
        (installEach (c.install s t).table calls).1 := rfl
    rw [hstep, ih, hhome, properties_install, List.map_cons, List.filter_cons]
    by_cases h : c.GoesTo t.defaultPlace w
    · rw [if_pos h, if_pos (decide_eq_true h)]
      rfl
    · rw [if_neg h, if_neg (by simpa using h)]

/-- A list of properties holds constants. -/
structure Listed (cs : List Constant) (ps : Properties) : Prop where
  /-- their names, in the order in which they first occur -/
  names : ps.keys = (cs.map key).eraseDups
  /-- and for each name the literal of the last constant that has it -/
  last : ∀ before c after, cs = before ++ c :: after → (∀ c' ∈ after, c'.name ≠ c.name) →
    ps.lookup c.key = some ⟨c.value.literal, ⟨false, true, false⟩⟩

theorem listed_listing (cs : List Constant) : Listed cs (Properties.listing (entries cs)) where
  names := by
    rw [Properties.keys_listing, entries, List.map_map]
    rfl
  last := by
    rintro before c after rfl hlast
    rw [entries, List.map_append, List.map_cons]
    refine Properties.lookup_listing _ (c.key, c.property) ?_
    intro later hlater hkey
    obtain ⟨c', hc', rfl⟩ := List.mem_map.mp hlater
    exact hlast c' hc' (PropertyKey.text.inj hkey)

/-! ## A new table -/

section NewTable

variable (s : Settings) (name : String) (isGlobal : Bool) (calls : List (Settings × Constant))

theorem properties_new (w : Place) : (PropertyTable.new s name isGlobal).properties w = [] := by
  cases w <;> rfl

theorem properties_static :
    (installEach (.new s name isGlobal) calls).1.properties .static =
      Properties.listing (entries (calls.map Prod.snd)) := by
  rw [properties_installEach, properties_new, List.filter_eq_self.mpr]
  · rfl
  · exact fun c _ => decide_eq_true (Or.inl rfl)

theorem properties_defaultPlace :
    (installEach (.new s name isGlobal) calls).1.properties
        (PropertyTable.new s name isGlobal).defaultPlace =
      Properties.listing
        (entries ((calls.map Prod.snd).filter fun c => c.special ≠ .static)) := by
  have hgoes (c : Constant) : c.GoesTo (PropertyTable.new s name isGlobal).defaultPlace
      (PropertyTable.new s name isGlobal).defaultPlace ↔ c.special ≠ .static := by
    simp [GoesTo, PropertyTable.defaultPlace_ne_static]
  rw [properties_installEach, properties_new]
  simp only [hgoes]
  rfl

theorem properties_elsewhere {w : Place} (hstatic : w ≠ .static)
    (hdefault : w ≠ (PropertyTable.new s name isGlobal).defaultPlace) :
    (installEach (.new s name isGlobal) calls).1.properties w = [] := by
  rw [properties_installEach, properties_new, List.filter_eq_nil_iff.mpr]
  · rfl
  · intro c _
    simp [GoesTo, hstatic, hdefault]

/-- Everything on the table is a constant. -/
theorem exists_of_mem_properties {w : Place} {entry : PropertyKey × Property}
    (h : entry ∈ (installEach (.new s name isGlobal) calls).1.properties w) :
    ∃ c : Constant, entry = (c.key, c.property) := by
  rw [properties_installEach, properties_new] at h
  obtain ⟨c, -, rfl⟩ := List.mem_map.mp (Properties.mem_of_mem_listing h)
  exact ⟨c, rfl⟩

theorem accessible_of_mem_properties (w : Place) :
    ∀ entry ∈ (installEach (.new s name isGlobal) calls).1.properties w, entry.1.Accessible := by
  intro entry h
  obtain ⟨c, rfl⟩ := exists_of_mem_properties s name isGlobal calls h
  rfl

/-- The table has at most two statements, one for each place where constants go. -/
theorem render_installEach :
    (installEach (.new s name isGlobal) calls).1.render =
      .ok ((installEach (.new s name isGlobal) calls).1.statementText .static ++
        (installEach (.new s name isGlobal) calls).1.statementText
          (PropertyTable.new s name isGlobal).defaultPlace) := by
  have hempty (w : Place) (hstatic : w ≠ .static)
      (hdefault : w ≠ (PropertyTable.new s name isGlobal).defaultPlace) :=
    PropertyTable.statementText_of_empty
      (properties_elsewhere s name isGlobal calls hstatic hdefault)
  rw [PropertyTable.render_eq_ok_iff]
  refine ⟨accessible_of_mem_properties s name isGlobal calls, ?_⟩
  cases isGlobal with
  | true =>
    rw [hempty .prototype (by decide) Place.noConfusion, String.append_empty]
    rfl
  | false =>
    rw [hempty .perInstance (by decide) Place.noConfusion, String.append_empty]
    rfl

/-- The object that the properties of the default place are defined on. -/
def homeTarget (name : String) (isGlobal : Bool) : String :=
  if isGlobal then "wrapper" else name ++ ".prototype"

theorem name_installEach : (installEach (.new s name isGlobal) calls).1.name = name :=
  congrArg Prod.fst (interface_installEach (.new s name isGlobal) calls)

theorem indent_installEach : (installEach (.new s name isGlobal) calls).1.indent = s.indent :=
  congrArg (·.2.2) (interface_installEach (.new s name isGlobal) calls)

theorem target_static : (installEach (.new s name isGlobal) calls).1.target .static = name :=
  name_installEach s name isGlobal calls

theorem target_defaultPlace :
    (installEach (.new s name isGlobal) calls).1.target
      (PropertyTable.new s name isGlobal).defaultPlace = homeTarget name isGlobal := by
  cases isGlobal with
  | true => rfl
  | false => exact congrArg (· ++ ".prototype") (name_installEach s name false calls)

/-- Without static constants the two places do not differ. -/
theorem properties_of_plain (h : ∀ c ∈ calls.map Prod.snd, c.special ≠ .static) :
    (installEach (.new s name isGlobal) calls).1.properties .static =
      (installEach (.new s name isGlobal) calls).1.properties
        (PropertyTable.new s name isGlobal).defaultPlace := by
  rw [properties_static, properties_defaultPlace, List.filter_eq_self.mpr]
  exact fun c hc => decide_eq_true (h c hc)

/-- Nor do the entries of their statements. -/
theorem statements_of_plain (h : ∀ c ∈ calls.map Prod.snd, c.special ≠ .static) :
    ∃ entries, (entries = [] ↔ calls = []) ∧
      (installEach (.new s name isGlobal) calls).1.statement .static = .define name entries ∧
      (installEach (.new s name isGlobal) calls).1.statement
        (PropertyTable.new s name isGlobal).defaultPlace =
          .define (homeTarget name isGlobal) entries := by
  refine ⟨_, ?_, congrArg (Statement.define · _) (target_static s name isGlobal calls), ?_⟩
  · rw [List.map_eq_nil_iff, properties_static]
    constructor
    · intro hnone
      have hkeys := (listed_listing (calls.map Prod.snd)).names
      rw [hnone] at hkeys
      rcases calls with _ | ⟨call, calls⟩
      · rfl
      · cases hkeys.trans List.eraseDups_cons
    · rintro rfl
      rfl
  · rw [PropertyTable.statement, target_defaultPlace, properties_of_plain s name isGlobal calls h]

end NewTable

/-- **What a run of constants leaves.** Constants are installed one after another on a new table:

* the interface object lists all of them, and the default place those that are not static. The third
  place stays empty;
* all properties are listed and fixed;
* the ledgers that the calls return are empty;
* the table can be rendered;
* if none of the constants is static, the two places have the same properties. There is no text when
  there are no constants; otherwise there are two statements with the same entries, which define
  them on the interface object and on the object that the default place stands for. -/
theorem installEach_lists_constants (s : Settings) (name : String) (isGlobal : Bool)
    (calls : List (Settings × Constant)) :
    let t := (installEach (.new s name isGlobal) calls).1
    let ledgers := (installEach (.new s name isGlobal) calls).2
    let place := (PropertyTable.new s name isGlobal).defaultPlace
    let constants := calls.map Prod.snd
    Listed constants (t.properties .static) ∧
    Listed (constants.filter fun c => c.special ≠ .static) (t.properties place) ∧
    (∀ w, w ≠ .static → w ≠ place → t.properties w = []) ∧
    (∀ w, ∀ entry ∈ t.properties w, entry.2.shape = ⟨false, true, false⟩) ∧
    (ledgers.length = calls.length ∧ ∀ ledger ∈ ledgers, ledger.isEmpty = true) ∧
    (∃ text, t.render = .ok text) ∧
    ((∀ c ∈ constants, c.special ≠ .static) →
      t.properties .static = t.properties place ∧
      if calls = [] then t.render = .ok ""
      else ∃ entries ≠ [],
        t.definition .static = .ok (.define name entries) ∧
        t.definition place = .ok (.define (homeTarget name isGlobal) entries) ∧
        t.render = .ok
          (Fragment.render s.indent (Statement.define name entries).fragments ++
            Fragment.render s.indent
              (Statement.define (homeTarget name isGlobal) entries).fragments)) := by
  intro t ledgers place constants
  have hstatic := properties_static s name isGlobal calls
  have hdefault := properties_defaultPlace s name isGlobal calls
  have haccess := accessible_of_mem_properties s name isGlobal calls
  have hrender := render_installEach s name isGlobal calls
  have hledgers : ledgers = _ := ledgers_installEach (.new s name isGlobal) calls
  refine ⟨hstatic ▸ listed_listing _, hdefault ▸ listed_listing _,
    fun w => properties_elsewhere s name isGlobal calls, ?_, ⟨?_, ?_⟩, ⟨_, hrender⟩, ?_⟩
  · intro w entry h
    obtain ⟨c, rfl⟩ := exists_of_mem_properties s name isGlobal calls h
    rfl
  · rw [hledgers, List.length_map]
  · intro ledger h
    obtain ⟨call, -, rfl⟩ := List.mem_map.mp (hledgers ▸ h)
    rfl
  · intro hplain
    obtain ⟨entries, hnone, hfirst, hsecond⟩ := statements_of_plain s name isGlobal calls hplain
    rw [PropertyTable.statementText, PropertyTable.statementText, indent_installEach, hfirst,
      hsecond] at hrender
    refine ⟨properties_of_plain s name isGlobal calls hplain, ?_⟩
    split
    next hcalls =>
      rw [hnone.mpr hcalls] at hrender
      exact hrender
    next hcalls =>
      exact ⟨entries, hnone.not.mpr hcalls,
        (PropertyTable.definition_eq_ok_iff _ _ _).mpr ⟨haccess .static, hfirst.symm⟩,
        (PropertyTable.definition_eq_ok_iff _ _ _).mpr ⟨haccess place, hsecond.symm⟩, hrender⟩

end Constant

end IdlBinding
