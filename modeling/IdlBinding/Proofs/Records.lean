import IdlBinding.Json.Record
import Mathlib.Data.List.Permutation

/-!
# Records are known by their fields

A record is read member by member, in the order of the text. What comes of it has nothing to do with
that order, nor with whether the record is an object or an array: it is what the fields give when
they are read in the order of their declaration (`record_eq_ok_iff`).

* `Fieldwise` — what a reader of fields has to keep to. Other names are skipped, a field is read
  once, and two fields may change places;
* `IsRecord` — the form of a record: an object in which every field comes once at most and the other
  members are well formed, or an array that is not too long;
* `field?` — a field of a record, in either form.

The two-step diamond of `Fieldwise` gives that members may be permuted (`foldlM_perm`). So the
fields can be brought to the front one after another, and what remains is skipped.
-/

namespace IdlBinding.Json

/-! ## Steps that may fail -/

section Steps

variable {α β : Type}

theorem bind_eq_ok {x : Except Fault α} {f : α → Except Fault β} {b : β} :
    (x >>= f) = .ok b ↔ ∃ a, x = .ok a ∧ f a = .ok b := by
  rcases x with fault | a
  · simp [bind, Except.bind]
  · simp [bind, Except.bind]

theorem map_eq_ok {x : Except Fault α} {f : α → β} {b : β} :
    x.map f = .ok b ↔ ∃ a, x = .ok a ∧ f a = b := by
  rcases x with fault | a
  · simp [Except.map]
  · simp [Except.map]

theorem check_eq_ok {p : Prop} [Decidable p] {a b : α} {fault : Fault} :
    (if p then Except.ok a else .error fault) = .ok b ↔ p ∧ a = b := by
  split
  next h => simp [h]
  next h => simp [h]

end Steps

/-- A document is read to its end. -/
theorem Document.decode_eq_ok_iff {α : Type} {read : Value → Except Fault α} {d : Document}
    {a : α} : d.decode read = .ok a ↔ read d.root = .ok a ∧ d.complete = true := by
  rw [decode, bind_eq_ok]
  simp only [check_eq_ok]
  constructor
  · rintro ⟨b, hread, hcomplete, rfl⟩
    exact ⟨hread, hcomplete⟩
  · rintro ⟨hread, hcomplete⟩
    exact ⟨a, hread, hcomplete, rfl⟩

namespace Value

theorem once_eq_ok {α : Type} {before found : Option α} {read : Except Fault α} :
    once before read = .ok found ↔ before = none ∧ ∃ a, read = .ok a ∧ some a = found := by
  rw [once]
  rcases before with _ | b
  · simp [map_eq_ok]
  · simp

theorem skip_eq_ok {σ : Type} {s t : σ} {v : Value} :
    skip s v = .ok t ↔ v.wellFormed = true ∧ s = t :=
  check_eq_ok

theorem required_eq_ok {α : Type} {field : Option α} {a : α} :
    required field = .ok a ↔ field = some a := by
  rcases field with _ | b
  · simp [required]
  · simp [required]

/-! ## Readers of fields -/

variable {σ : Type} {names : List String} {field : σ → String → Value → Except Fault σ}

/-- The reader treats the named fields apart from each other. -/
structure Fieldwise (names : List String) (field : σ → String → Value → Except Fault σ) :
    Prop where
  /-- other names are skipped -/
  other : ∀ {s : σ} {key : String} {v : Value}, key ∉ names → field s key v = skip s v
  /-- a field that was read is not read again -/
  once : ∀ {s s' t : σ} {key : String} {v v' : Value}, key ∈ names →
    field s key v = .ok s' → field s' key v' ≠ .ok t
  /-- two fields may change places -/
  swap : ∀ {s s' t : σ} {key key' : String} {v v' : Value}, key ∈ names → key' ∈ names →
    key ≠ key' → field s key v = .ok s' → field s' key' v' = .ok t →
    ∃ s'', field s key' v' = .ok s'' ∧ field s'' key v = .ok t

namespace Fieldwise

variable (h : Fieldwise names field) {s s' t : σ}
include h

/-- Two members that are read one after the other can be read in the other order. -/
theorem memberOf_swap {m m' : Option String × Value} (hm : memberOf field s m = .ok s')
    (hm' : memberOf field s' m' = .ok t) :
    ∃ s'', memberOf field s m' = .ok s'' ∧ memberOf field s'' m = .ok t := by
  obtain ⟨_ | key, v⟩ := m
  · cases hm
  obtain ⟨_ | key', v'⟩ := m'
  · cases hm'
  simp only [memberOf] at hm hm' ⊢
  by_cases hkey : key ∈ names
  · by_cases hkey' : key' ∈ names
    · by_cases hne : key = key'
      · exact absurd hm' (hne ▸ h.once hkey hm)
      · exact h.swap hkey hkey' hne hm hm'
    · -- The second member is skipped, before the first as well as after it.
      rw [h.other hkey', skip_eq_ok] at hm'
      obtain ⟨hv', rfl⟩ := hm'
      exact ⟨s, by rw [h.other hkey', skip_eq_ok]; exact ⟨hv', rfl⟩, hm⟩
  · rw [h.other hkey, skip_eq_ok] at hm
    obtain ⟨hv, rfl⟩ := hm
    exact ⟨t, hm', by rw [h.other hkey, skip_eq_ok]; exact ⟨hv, rfl⟩⟩

/-- **The order of members does not matter.** -/
theorem foldlM_perm {members members' : List (Option String × Value)}
    (hperm : members.Perm members') (hread : members.foldlM (memberOf field) s = .ok t) :
    members'.foldlM (memberOf field) s = .ok t := by
  induction hperm generalizing s with
  | nil => exact hread
  | cons m _ ih =>
    rw [List.foldlM_cons, bind_eq_ok] at hread ⊢
    obtain ⟨next, hm, hrest⟩ := hread
    exact ⟨next, hm, ih hrest⟩
  | swap m m' _ =>
    simp only [List.foldlM_cons, bind_eq_ok] at hread ⊢
    obtain ⟨next, hm', last, hm, hrest⟩ := hread
    obtain ⟨next', hm, hm'⟩ := h.memberOf_swap hm' hm
    exact ⟨next', hm, last, hm', hrest⟩
  | trans _ _ ih ih' => exact ih' (ih hread)

theorem foldlM_perm_iff {members members' : List (Option String × Value)}
    (hperm : members.Perm members') :
    members.foldlM (memberOf field) s = .ok t ↔ members'.foldlM (memberOf field) s = .ok t :=
  ⟨h.foldlM_perm hperm, h.foldlM_perm hperm.symm⟩

end Fieldwise

/-! ## The form of a record -/

/-- The member is a field, or else it can be skipped. -/
def Readable (names : List String) (member : Option String × Value) : Prop :=
  ∃ key, member.1 = some key ∧ (key ∈ names ∨ member.2.wellFormed = true)

/-- The value has the form of a record with these fields. -/
def IsRecord (names : List String) : Value → Prop
  | .object members closed => closed = true ∧ (∀ member ∈ members, Readable names member) ∧
    ∀ name ∈ names, (members.map Prod.fst).count (some name) ≤ 1
  | .array items closed => closed = true ∧ items.length ≤ names.length
  | _ => False

/-- A field of a record. The items of an array have the names of the fields in their order. -/
def field? (names : List String) (v : Value) (name : String) : Option Value :=
  match v with
  | .object members _ => members.lookup (some name)
  | .array items _ => (names.zip items).lookup name
  | _ => none

/-- Read a field if it is there. -/
def readField (field : σ → String → Value → Except Fault σ) (s : σ) (name : String) :
    Option Value → Except Fault σ
  | some v => field s name v
  | none => .ok s

/-- Read fields one after another. -/
def readFields (field : σ → String → Value → Except Fault σ) (given : String → Option Value)
    (names : List String) (s : σ) : Except Fault σ :=
  names.foldlM (fun s name => readField field s name (given name)) s

theorem readFields_nil {given : String → Option Value} {s t : σ} :
    readFields field given [] s = .ok t ↔ s = t :=
  Except.ok.injEq s t ▸ Iff.rfl

theorem readFields_cons {given : String → Option Value} {name : String} {s t : σ} :
    readFields field given (name :: names) s = .ok t ↔
      ∃ s', readField field s name (given name) = .ok s' ∧
        readFields field given names s' = .ok t := by
  rw [readFields, List.foldlM_cons, bind_eq_ok]
  rfl

theorem readFields_congr {given given' : String → Option Value}
    (h : ∀ name ∈ names, given name = given' name) (s : σ) :
    readFields field given names s = readFields field given' names s := by
  induction names generalizing s with
  | nil => rfl
  | cons name names ih =>
    obtain ⟨hname, hnames⟩ := List.forall_mem_cons.mp h
    simp only [readFields, List.foldlM_cons, hname] at ih ⊢
    exact bind_congr fun s' => ih hnames s'

theorem readFields_of_absent {given : String → Option Value} (h : ∀ name ∈ names, given name = none)
    (s : σ) : readFields field given names s = .ok s := by
  induction names with
  | nil => rfl
  | cons name names ih =>
    obtain ⟨hname, hnames⟩ := List.forall_mem_cons.mp h
    rw [readFields_cons, hname]
    exact ⟨s, rfl, ih hnames⟩

/-! ## Objects -/

theorem lookup_remove {name other : String} (hne : other ≠ name) (v : Value)
    (front back : List (Option String × Value)) :
    List.lookup (some other) (front ++ (some name, v) :: back) =
      List.lookup (some other) (front ++ back) := by
  have hkeys : (some other == some name) = false := by simpa using hne
  rw [List.lookup_append, List.lookup_append, List.lookup_cons, hkeys]

/-- Permuting members does not change a field that comes once at most. -/
theorem lookup_perm {name : String} {members members' : List (Option String × Value)}
    (hperm : members.Perm members') (hcount : (members.map Prod.fst).count (some name) ≤ 1) :
    members.lookup (some name) = members'.lookup (some name) := by
  induction hperm with
  | nil => rfl
  | cons m _ ih =>
    simp only [List.map_cons, List.count_cons] at hcount
    rw [List.lookup_cons, List.lookup_cons, ih (by omega)]
  | swap m m' _ =>
    obtain ⟨key, v⟩ := m
    obtain ⟨key', v'⟩ := m'
    simp only [List.map_cons, List.count_cons] at hcount
    simp only [List.lookup_cons]
    grind
  | trans hperm _ ih ih' =>
    refine (ih hcount).trans (ih' ?_)
    rw [← (hperm.map Prod.fst).count_eq]
    exact hcount

theorem lookup_middle {name : String} {v : Value} {front back : List (Option String × Value)}
    (hcount : ((front ++ (some name, v) :: back).map Prod.fst).count (some name) ≤ 1) :
    (front ++ (some name, v) :: back).lookup (some name) = some v := by
  have hperm : (front ++ (some name, v) :: back).Perm ((some name, v) :: (front ++ back)) :=
    List.perm_middle
  rw [lookup_perm hperm hcount, List.lookup_cons, beq_self_eq_true]

namespace Fieldwise

variable (h : Fieldwise names field) {s s' t : σ}
include h

/-- After a field, no member with its name can be read. -/
theorem notMem_of_read {key : String} {v : Value} {members : List (Option String × Value)}
    (hkey : key ∈ names) (hfield : field s key v = .ok s')
    (hread : members.foldlM (memberOf field) s' = .ok t) : some key ∉ members.map Prod.fst := by
  intro hmem
  obtain ⟨⟨_, v'⟩, hmem, rfl⟩ := List.mem_map.mp hmem
  obtain ⟨front, back, rfl⟩ := List.append_of_mem hmem
  have hfirst := h.foldlM_perm List.perm_middle hread
  rw [List.foldlM_cons, bind_eq_ok] at hfirst
  obtain ⟨s'', hagain, -⟩ := hfirst
  exact h.once hkey hfield hagain

/-- Members that can be read have the form of a record. -/
theorem isRecord_of_read {members : List (Option String × Value)}
    (hread : members.foldlM (memberOf field) s = .ok t) :
    (Value.object members true).IsRecord names := by
  refine ⟨rfl, ?_⟩
  induction members generalizing s with
  | nil => simp
  | cons m members ih =>
    rw [List.foldlM_cons, bind_eq_ok] at hread
    obtain ⟨s', hm, hrest⟩ := hread
    obtain ⟨hreadable, hcount⟩ := ih hrest
    obtain ⟨_ | key, v⟩ := m
    · cases hm
    refine ⟨List.forall_mem_cons.mpr ⟨⟨key, rfl, ?_⟩, hreadable⟩, fun name hname => ?_⟩
    · by_cases hkey : key ∈ names
      · exact .inl hkey
      · rw [memberOf, h.other hkey, skip_eq_ok] at hm
        exact .inr hm.1
    · rw [List.map_cons, List.count_cons]
      by_cases heq : key = name
      · subst heq
        rw [List.count_eq_zero.mpr (h.notMem_of_read hname hm hrest)]
        simp
      · have hkeys : (some key == some name) = false := by simpa using heq
        rw [hkeys]
        exact hcount name hname

/-- Members that are no fields change nothing. -/
theorem foldlM_of_other {members : List (Option String × Value)}
    (hreadable : ∀ member ∈ members, Readable names member)
    (hother : ∀ name ∈ names, some name ∉ members.map Prod.fst) :
    members.foldlM (memberOf field) s = .ok s := by
  induction members with
  | nil => rfl
  | cons m members ih =>
    obtain ⟨⟨key, hkey, hfield⟩, hrest⟩ := List.forall_mem_cons.mp hreadable
    obtain ⟨_, v⟩ := m
    obtain rfl := hkey
    have hnot : key ∉ names := by
      intro hmem
      exact hother key hmem (by simp)
    rw [List.foldlM_cons, bind_eq_ok]
    refine ⟨s, ?_, ih hrest fun name hname hmem => hother name hname (by simp [hmem])⟩
    rw [memberOf, h.other hnot, skip_eq_ok]
    exact ⟨hfield.resolve_left hnot, rfl⟩

/-- **Members are read as their fields** in the order of declaration. The fields still to be read
are `todo`; all others have been removed from the members. -/
theorem foldlM_eq_ok_iff {todo : List String} (hsub : ∀ name ∈ todo, name ∈ names)
    (hnodup : todo.Nodup) {members : List (Option String × Value)}
    (hreadable : ∀ member ∈ members, Readable names member)
    (hcount : ∀ name ∈ todo, (members.map Prod.fst).count (some name) ≤ 1)
    (htodo : ∀ name ∈ names, some name ∈ members.map Prod.fst → name ∈ todo) :
    members.foldlM (memberOf field) s = .ok t ↔
      readFields field (fun name => members.lookup (some name)) todo s = .ok t := by
  induction todo generalizing members s with
  | nil =>
    rw [h.foldlM_of_other hreadable fun name hname hmem => nomatch htodo name hname hmem]
    rfl
  | cons name todo ih =>
    obtain ⟨hname, hsub⟩ := List.forall_mem_cons.mp hsub
    obtain ⟨hfresh, hnodup⟩ := List.nodup_cons.mp hnodup
    obtain ⟨hone, hcount⟩ := List.forall_mem_cons.mp hcount
    rw [readFields_cons]
    rcases hlookup : members.lookup (some name) with _ | v
    · -- The field is not there, and so the others are all there is.
      have hstill : ∀ other ∈ names, some other ∈ members.map Prod.fst → other ∈ todo := by
        intro other hother hmem
        refine (List.mem_cons.mp (htodo other hother hmem)).resolve_left ?_
        rintro rfl
        obtain ⟨member, hmember, hkey⟩ := List.mem_map.mp hmem
        simpa [hkey] using List.lookup_eq_none_iff.mp hlookup member hmember
      rw [ih hsub hnodup hreadable hcount hstill]
      simp [readField]
    · obtain ⟨front, back, rfl, -⟩ := List.lookup_eq_some_iff.mp hlookup
      have habsent : some name ∉ (front ++ back).map Prod.fst := by
        rw [← List.count_eq_zero]
        simp only [List.map_append, List.map_cons, List.count_append,
          List.count_cons_self] at hone ⊢
        omega
      have hsublist : (front ++ back).Sublist (front ++ (some name, v) :: back) :=
        List.Sublist.append_left (List.sublist_cons_self _ _) front
      have hkeys := hsublist.map Prod.fst
      have hstill : ∀ other ∈ names, some other ∈ (front ++ back).map Prod.fst → other ∈ todo := by
        intro other hother hmem
        refine (List.mem_cons.mp (htodo other hother (hkeys.subset hmem))).resolve_left ?_
        rintro rfl
        exact habsent hmem
      have hlookups : ∀ other ∈ todo, List.lookup (some other) (front ++ back) =
          List.lookup (some other) (front ++ (some name, v) :: back) := by
        intro other hother
        refine (lookup_remove ?_ v front back).symm
        rintro rfl
        exact hfresh hother
      rw [h.foldlM_perm_iff List.perm_middle, List.foldlM_cons, bind_eq_ok]
      refine exists_congr fun s' => and_congr Iff.rfl ?_
      rw [ih hsub hnodup (fun member hmember => hreadable member (hsublist.subset hmember))
        (fun other hother => Nat.le_trans (hkeys.count_le _) (hcount other hother)) hstill,
        readFields_congr hlookups]

/-! ## Arrays -/

omit h in
/-- The items of an array are read as the fields they stand for. -/
theorem foldlM_zip (hnodup : names.Nodup) (items : List Value) :
    (names.zip items).foldlM (fun s entry => field s entry.1 entry.2) s =
      readFields field (fun name => (names.zip items).lookup name) names s := by
  induction names generalizing items s with
  | nil => rfl
  | cons name names ih =>
    obtain ⟨hfresh, hnodup⟩ := List.nodup_cons.mp hnodup
    rcases items with _ | ⟨v, items⟩
    · exact (readFields_of_absent (fun _ _ => rfl) s).symm
    · have hlookup : List.lookup name ((name, v) :: names.zip items) = some v := by
        rw [List.lookup_cons, beq_self_eq_true]
      simp only [List.zip_cons_cons, readFields, List.foldlM_cons, hlookup]
      refine bind_congr fun s' => ?_
      rw [ih hnodup]
      refine readFields_congr (fun other hother => ?_) s'
      have hne : (other == name) = false := by
        refine beq_false_of_ne ?_
        rintro rfl
        exact hfresh hother
      rw [List.lookup_cons, hne]

/-- **A record is known by its fields.** It is read exactly if it has the form of a record and its
fields can be read in the order of their declaration, with the same result. -/
theorem record_eq_ok_iff (hnodup : names.Nodup) {v : Value} :
    v.record names s field = .ok t ↔
      v.IsRecord names ∧ readFields field (v.field? names) names s = .ok t := by
  cases v with
  | object members closed =>
    simp only [record, bind_eq_ok, check_eq_ok]
    constructor
    · rintro ⟨s', hread, rfl, rfl⟩
      have hform := h.isRecord_of_read hread
      refine ⟨hform, ?_⟩
      exact (h.foldlM_eq_ok_iff (fun _ hn => hn) hnodup hform.2.1 hform.2.2
        fun _ hn _ => hn).mp hread
    · rintro ⟨⟨hclosed, hreadable, hcount⟩, hread⟩
      refine ⟨t, ?_, hclosed, rfl⟩
      exact (h.foldlM_eq_ok_iff (fun _ hn => hn) hnodup hreadable hcount fun _ hn _ => hn).mpr hread
  | array items closed =>
    simp only [record, bind_eq_ok, check_eq_ok, foldlM_zip hnodup, Bool.and_eq_true,
      decide_eq_true_eq]
    constructor
    · rintro ⟨s', hread, hform, rfl⟩
      exact ⟨hform, hread⟩
    · rintro ⟨hform, hread⟩
      exact ⟨t, hread, hform, rfl⟩
  | _ => simp [record, IsRecord]

end Fieldwise

end Value

end IdlBinding.Json
