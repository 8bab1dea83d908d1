import IdlBinding.Toml.Document
import Mathlib.Data.List.Nodup

/-!
# In a document every key comes once

A table that a document describes has each of its keys once, and so have the tables inside it
(`distinct_of_read?`). The reader never checks this for a table as a whole. It is kept by each
change to a table under construction: a change adds a key that is not there, or replaces the node
of a key that is (`Keeps`).

What a line says has nothing to do with the draft it is read into. `exists_line` gives this once,
as a `Line` that is applied to drafts, and what lines do to a draft is seen from there.
-/

namespace IdlBinding.Toml

/-! ## Tables with distinct keys -/

/-- In every table of the value each key comes once. -/
inductive Value.Distinct : Value → Prop
  | string (text : String) : Distinct (.string text)
  | integer (n : Int) : Distinct (.integer n)
  | float (literal : String) : Distinct (.float literal)
  | boolean (value : Bool) : Distinct (.boolean value)
  | dateTime (literal : String) : Distinct (.dateTime literal)
  | array {items : List Value} (values : ∀ item ∈ items, Distinct item) : Distinct (.array items)
  | table {entries : List (String × Value)} (keys : (entries.map Prod.fst).Nodup)
    (values : ∀ entry ∈ entries, Distinct entry.2) : Distinct (.table entries)

/-- The same of an entry under construction. -/
inductive Node.Distinct : Node → Prop
  | leaf {value : Value} (values : value.Distinct) : Distinct (.leaf value)
  | table {origin : Origin} {entries : Entries} (keys : (entries.map Prod.fst).Nodup)
    (nodes : ∀ entry ∈ entries, Distinct entry.2) : Distinct (.table origin entries)
  | tables {elements : List Entries} (keys : ∀ entries ∈ elements, (entries.map Prod.fst).Nodup)
    (nodes : ∀ entries ∈ elements, ∀ entry ∈ entries, Distinct entry.2) :
    Distinct (.tables elements)

namespace Node

theorem entriesToValues_eq (entries : Entries) :
    entriesToValues entries = entries.map fun entry => (entry.1, toValue entry.2) := by
  induction entries with
  | nil => rw [entriesToValues, List.map_nil]
  | cons entry entries ih => rw [entriesToValues, ih, List.map_cons]

theorem elementsToValues_eq (elements : List Entries) :
    elementsToValues elements = elements.map fun entries => .table (entriesToValues entries) := by
  induction elements with
  | nil => rw [elementsToValues, List.map_nil]
  | cons entries elements ih => rw [elementsToValues, ih, List.map_cons]

theorem keys_entriesToValues (entries : Entries) :
    (entriesToValues entries).map Prod.fst = entries.map Prod.fst := by
  rw [entriesToValues_eq, List.map_map]
  rfl

theorem forall_mem_entriesToValues {entries : Entries} {p : Value → Prop}
    (h : ∀ entry ∈ entries, p (toValue entry.2)) : ∀ entry ∈ entriesToValues entries, p entry.2 := by
  rw [entriesToValues_eq, List.forall_mem_map]
  exact h

theorem Distinct.toValue {node : Node} (h : node.Distinct) : node.toValue.Distinct := by
  induction h with
  | leaf values =>
    rw [Node.toValue]
    exact values
  | table keys _ ih =>
    rw [Node.toValue]
    exact .table (by rwa [keys_entriesToValues]) (forall_mem_entriesToValues ih)
  | tables keys _ ih =>
    rw [Node.toValue, elementsToValues_eq]
    refine .array (List.forall_mem_map.mpr fun entries hentries => ?_)
    exact .table (by rw [keys_entriesToValues]; exact keys entries hentries)
      (forall_mem_entriesToValues (ih entries hentries))

end Node

/-! ## Changes to a table under construction -/

namespace Entries

/-- Each key comes once, here and in the tables inside. -/
structure Distinct (entries : Entries) : Prop where
  /-- the keys of this table -/
  keys : (entries.map Prod.fst).Nodup
  /-- the tables inside -/
  nodes : ∀ entry ∈ entries, entry.2.Distinct

namespace Distinct

variable {entries : Entries} {key : String} {node : Node}

theorem nil : Distinct [] := ⟨List.nodup_nil, List.forall_mem_nil _⟩

theorem toNode (h : Distinct entries) (origin : Origin) : (Node.table origin entries).Distinct :=
  .table h.keys h.nodes

theorem of_lookup (h : Distinct entries) (hlookup : entries.lookup key = some node) :
    node.Distinct := by
  obtain ⟨front, back, rfl, -⟩ := List.lookup_eq_some_iff.mp hlookup
  exact h.nodes (key, node) (by simp)

/-- A key that is not there can be added. -/
theorem concat (h : Distinct entries) (hfresh : entries.lookup key = none)
    (hnode : node.Distinct) : Distinct (entries ++ [(key, node)]) := by
  have hnot : key ∉ entries.map Prod.fst := by
    intro hmem
    obtain ⟨entry, hentry, rfl⟩ := List.mem_map.mp hmem
    simpa using List.lookup_eq_none_iff.mp hfresh entry hentry
  constructor
  · rw [List.map_append, List.map_singleton]
    refine List.nodup_append.mpr ⟨h.keys, List.nodup_singleton key, ?_⟩
    rintro a ha b hb rfl
    rw [List.mem_singleton.mp hb] at ha
    exact hnot ha
  · exact List.forall_mem_append.mpr ⟨h.nodes, List.forall_mem_singleton.mpr hnode⟩

/-- The node of a key can be replaced. -/
theorem replace (h : Distinct entries) (hnode : node.Distinct) :
    Distinct (entries.replace key node) := by
  constructor
  · have hkeys : (Entries.replace entries key node).map Prod.fst = entries.map Prod.fst := by
      rw [Entries.replace, List.map_map]
      refine List.map_congr_left fun entry _ => ?_
      rw [Function.comp_apply]
      split
      next hkey => exact hkey.symm
      next => rfl
    rw [hkeys]
    exact h.keys
  · rw [Entries.replace, List.forall_mem_map]
    intro entry hentry
    split
    · exact hnode
    · exact h.nodes entry hentry

end Distinct

/-- The change keeps keys distinct. -/
def Keeps (f : Entries → Option Entries) : Prop :=
  ∀ ⦃entries entries' : Entries⦄, Distinct entries → f entries = some entries' → Distinct entries'

theorem forall_mem_updateLast {α : Type} {f : α → Option α} {p : α → Prop}
    (hf : ∀ ⦃a b : α⦄, p a → f a = some b → p b) {as bs : List α} (has : ∀ a ∈ as, p a)
    (h : updateLast f as = some bs) : ∀ b ∈ bs, p b := by
  fun_induction updateLast f as generalizing bs with
  | case1 => cases h
  | case2 a =>
    obtain ⟨b, hb, hbs⟩ := Option.bind_eq_some_iff.mp h
    cases hbs
    exact List.forall_mem_singleton.mpr (hf (has a List.mem_cons_self) hb)
  | case3 a as _ ih =>
    obtain ⟨ha, has⟩ := List.forall_mem_cons.mp has
    obtain ⟨bs', hbs', hbs⟩ := Option.bind_eq_some_iff.mp h
    cases hbs
    exact List.forall_mem_cons.mpr ⟨ha, ih has hbs'⟩

theorem Keeps.updateTable {f : Entries → Option Entries} (hf : Keeps f) (key : String) :
    Keeps (updateTable key f) := by
  intro entries entries' h hupdate
  unfold Entries.updateTable at hupdate
  split at hupdate
  next origin inner hlookup =>
    obtain ⟨inner', hinner, hreplaced⟩ := Option.bind_eq_some_iff.mp hupdate
    cases hreplaced
    cases h.of_lookup hlookup with
    | table keys nodes => exact h.replace ((hf ⟨keys, nodes⟩ hinner).toNode origin)
  next elements hlookup =>
    obtain ⟨elements', helements, hreplaced⟩ := Option.bind_eq_some_iff.mp hupdate
    cases hreplaced
    cases h.of_lookup hlookup with
    | tables keys nodes =>
      have hdistinct := forall_mem_updateLast hf
        (fun element hmem => ⟨keys element hmem, nodes element hmem⟩) helements
      exact h.replace (.tables (fun element hmem => (hdistinct element hmem).keys)
        fun element hmem => (hdistinct element hmem).nodes)
  next => cases hupdate

theorem keeps_assign {value : Value} (hvalue : value.Distinct) (path : List String) :
    Keeps (assign value path) := by
  intro entries entries' h hassign
  fun_induction assign value path entries generalizing entries' with
  | case1 => cases hassign
  | case2 entries key hfresh =>
    cases hassign
    exact h.concat hfresh (.leaf hvalue)
  | case3 => cases hassign
  | case4 entries key path _ hfresh ih =>
    obtain ⟨inner, hinner, hadded⟩ := Option.bind_eq_some_iff.mp hassign
    cases hadded
    exact h.concat hfresh ((ih .nil hinner).toNode .dotted)
  | case5 entries key path _ inner hlookup ih =>
    obtain ⟨inner', hinner, hreplaced⟩ := Option.bind_eq_some_iff.mp hassign
    cases hreplaced
    cases h.of_lookup hlookup with
    | table keys nodes => exact h.replace ((ih ⟨keys, nodes⟩ hinner).toNode .dotted)
  | case6 => cases hassign

theorem keeps_assignUnder {value : Value} (hvalue : value.Distinct) (header path : List String) :
    Keeps (assignUnder header path value) := by
  induction header with
  | nil => exact keeps_assign hvalue path
  | cons key header ih => exact ih.updateTable key

/-- A header passes through a table that is there, or makes one. -/
theorem Keeps.passing {f g : Entries → Option Entries} (hf : Keeps f) (key : String)
    (hfresh : ∀ entries : Entries, entries.lookup key = none →
      g entries = (f []).bind fun inner => some (entries ++ [(key, .table .passed inner)]))
    (hpresent : ∀ (entries : Entries) (node : Node), entries.lookup key = some node →
      g entries = Entries.updateTable key f entries) : Keeps g := by
  intro entries entries' h hg
  rcases hlookup : entries.lookup key with _ | node
  · rw [hfresh entries hlookup, Option.bind_eq_some_iff] at hg
    obtain ⟨inner, hinner, hadded⟩ := hg
    cases hadded
    exact h.concat hlookup ((hf .nil hinner).toNode .passed)
  · rw [hpresent entries node hlookup] at hg
    exact hf.updateTable key h hg

theorem keeps_openTable (path : List String) : Keeps (openTable path) := by
  induction path with
  | nil =>
    intro entries entries' _ hopen
    cases hopen
  | cons key path ih =>
    rcases path with _ | ⟨next, path⟩
    · intro entries entries' h hopen
      rw [openTable] at hopen
      split at hopen
      next hfresh =>
        cases hopen
        exact h.concat hfresh (Distinct.nil.toNode .header)
      next inner hlookup =>
        cases hopen
        cases h.of_lookup hlookup with
        | table keys nodes => exact h.replace (.table keys nodes)
      next => cases hopen
    · refine ih.passing key (fun entries hfresh => ?_) fun entries node hlookup => ?_
      · rw [openTable, hfresh]
        · rfl
        · exact List.cons_ne_nil next path
      · rw [openTable, hlookup]
        exact List.cons_ne_nil next path

theorem keeps_openElement (path : List String) : Keeps (openElement path) := by
  induction path with
  | nil =>
    intro entries entries' _ hopen
    cases hopen
  | cons key path ih =>
    rcases path with _ | ⟨next, path⟩
    · intro entries entries' h hopen
      rw [openElement] at hopen
      split at hopen
      next hfresh =>
        cases hopen
        refine h.concat hfresh (.tables ?_ ?_)
        · exact List.forall_mem_singleton.mpr Distinct.nil.keys
        · exact List.forall_mem_singleton.mpr Distinct.nil.nodes
      next elements hlookup =>
        cases hopen
        cases h.of_lookup hlookup with
        | tables keys nodes =>
          refine h.replace (.tables ?_ ?_)
          · exact List.forall_mem_append.mpr
              ⟨keys, List.forall_mem_singleton.mpr Distinct.nil.keys⟩
          · exact List.forall_mem_append.mpr
              ⟨nodes, List.forall_mem_singleton.mpr Distinct.nil.nodes⟩
      next => cases hopen
    · refine ih.passing key (fun entries hfresh => ?_) fun entries node hlookup => ?_
      · rw [openElement, hfresh]
        · rfl
        · exact List.cons_ne_nil next path
      · rw [openElement, hlookup]
        exact List.cons_ne_nil next path

end Entries

/-! ## Values -/

theorem distinct_of_literalValue? {cs : List Char} {value : Value}
    (h : literalValue? cs = some value) : value.Distinct := by
  revert h
  fun_cases literalValue? cs with
  | case1 =>
    rintro ⟨⟩
    exact .boolean true
  | case2 =>
    rintro ⟨⟩
    exact .boolean false
  | case3 _ _ n =>
    rintro ⟨⟩
    exact .integer n
  | case4 =>
    rintro ⟨⟩
    exact .float _
  | case5 =>
    rintro ⟨⟩
    exact .dateTime _
  | case6 => rintro ⟨⟩

/-- Values that are read with some fuel have distinct keys; so have the tables that entries are read
into. -/
structure ReadsDistinct (fuel : Nat) : Prop where
  value : ∀ {cs rest : List Char} {v : Value}, readValue fuel cs = some (v, rest) → v.Distinct
  items : ∀ {cs rest : List Char} {vs : List Value}, readItems fuel cs = some (vs, rest) →
    ∀ v ∈ vs, v.Distinct
  entries : ∀ {cs rest : List Char} {a b : Entries}, a.Distinct →
    readEntries fuel a cs = some (b, rest) → b.Distinct

namespace ReadsDistinct

variable {fuel : Nat} (h : ReadsDistinct fuel)
include h

theorem readValue {cs rest : List Char} {v : Value}
    (hread : Toml.readValue (fuel + 1) cs = some (v, rest)) : v.Distinct := by
  rw [Toml.readValue.eq_def] at hread
  dsimp only at hread
  split at hread
  next =>
    obtain ⟨⟨items, rest⟩, hitems, hv⟩ := Option.bind_eq_some_iff.mp hread
    cases hv
    exact .array (h.items hitems)
  next =>
    obtain ⟨⟨entries, rest⟩, hentries, hv⟩ := Option.bind_eq_some_iff.mp hread
    cases hv
    exact ((h.entries .nil hentries).toNode .dotted).toValue
  next =>
    split at hread
    next =>
      cases hread
      exact .string _
    next =>
      obtain ⟨v', hliteral, hv⟩ := Option.bind_eq_some_iff.mp hread
      cases hv
      exact distinct_of_literalValue? hliteral

theorem readItems {cs rest : List Char} {vs : List Value}
    (hread : Toml.readItems (fuel + 1) cs = some (vs, rest)) : ∀ v ∈ vs, v.Distinct := by
  rw [Toml.readItems] at hread
  obtain ⟨gap, -, hread⟩ := Option.bind_eq_some_iff.mp hread
  split at hread
  next =>
    cases hread
    exact List.forall_mem_nil _
  next =>
    obtain ⟨⟨item, rest⟩, hitem, hread⟩ := Option.bind_eq_some_iff.mp hread
    obtain ⟨gap, -, hread⟩ := Option.bind_eq_some_iff.mp hread
    dsimp only at hread
    split at hread
    next =>
      obtain ⟨⟨items, rest⟩, hitems, hvs⟩ := Option.bind_eq_some_iff.mp hread
      cases hvs
      exact List.forall_mem_cons.mpr ⟨h.value hitem, h.items hitems⟩
    next =>
      cases hread
      exact List.forall_mem_singleton.mpr (h.value hitem)
    next => cases hread

theorem readEntries {cs rest : List Char} {a b : Entries} (ha : a.Distinct)
    (hread : Toml.readEntries (fuel + 1) a cs = some (b, rest)) : b.Distinct := by
  rw [Toml.readEntries] at hread
  obtain ⟨gap, -, hread⟩ := Option.bind_eq_some_iff.mp hread
  split at hread
  next =>
    cases hread
    exact ha
  next =>
    obtain ⟨⟨path, rest⟩, -, hread⟩ := Option.bind_eq_some_iff.mp hread
    obtain ⟨gap, -, hread⟩ := Option.bind_eq_some_iff.mp hread
    dsimp only at hread
    split at hread
    next =>
      obtain ⟨gap, -, hread⟩ := Option.bind_eq_some_iff.mp hread
      obtain ⟨⟨v, rest⟩, hv, hread⟩ := Option.bind_eq_some_iff.mp hread
      obtain ⟨a', hassign, hread⟩ := Option.bind_eq_some_iff.mp hread
      have ha' := Entries.keeps_assign (h.value hv) path ha hassign
      obtain ⟨gap, -, hread⟩ := Option.bind_eq_some_iff.mp hread
      split at hread
      next => exact h.entries ha' hread
      next =>
        cases hread
        exact ha'
      next => cases hread
    next => cases hread

end ReadsDistinct

theorem readsDistinct (fuel : Nat) : ReadsDistinct fuel := by
  induction fuel with
  | zero =>
    constructor
    · intro cs rest v hread
      rw [readValue] at hread
      cases hread
    · intro cs rest vs hread
      rw [readItems] at hread
      cases hread
    · intro cs rest a b _ hread
      rw [readEntries] at hread
      cases hread
  | succ fuel ih => exact ⟨ih.readValue, ih.readItems, ih.readEntries⟩

/-! ## Lines -/

/-- What a line of a document says. -/
inductive Line where
  /-- nothing -/
  | blank
  /-- the header of a table -/
  | header (path : List String)
  /-- the header of an element of an array of tables -/
  | element (path : List String)
  /-- a key and its value -/
  | entry (path : List String) (value : Value)

namespace Line

/-- The draft after a line. -/
def apply (d : Draft) : Line → Option Draft
  | .blank => some d
  | .header path => (Entries.openTable path d.root).map (Draft.mk · path)
  | .element path => (Entries.openElement path d.root).map (Draft.mk · path)
  | .entry path value => (Entries.assignUnder d.header path value d.root).map (Draft.mk · d.header)

/-- The value of the line, if it has one, has distinct keys. -/
def Distinct : Line → Prop
  | .entry _ value => value.Distinct
  | _ => True

/-- Lines keep keys distinct. -/
theorem apply_distinct {line : Line} {d d' : Draft} (hline : line.Distinct)
    (hd : d.root.Distinct) (happly : line.apply d = some d') : d'.root.Distinct := by
  cases line with
  | blank =>
    cases happly
    exact hd
  | header path =>
    obtain ⟨root, hroot, rfl⟩ := Option.map_eq_some_iff.mp happly
    exact Entries.keeps_openTable path hd hroot
  | element path =>
    obtain ⟨root, hroot, rfl⟩ := Option.map_eq_some_iff.mp happly
    exact Entries.keeps_openElement path hd hroot
  | entry path value =>
    obtain ⟨root, hroot, rfl⟩ := Option.map_eq_some_iff.mp happly
    exact Entries.keeps_assignUnder hline d.header path hd hroot

end Line

/-- A change of the root and the end of the line after it. -/
theorem change_bind_lineEnd {cs rest : List Char} (hend : lineEnd cs = some rest)
    (change : Option Entries) (header : List String) :
    (change.bind fun root => (lineEnd cs).bind fun rest => some (Draft.mk root header, rest)) =
      (change.map (Draft.mk · header)).map (·, rest) := by
  rw [hend]
  rcases change with _ | root
  · rfl
  · rfl

/-- **What a line says does not depend on the draft** that it is read into. -/
theorem exists_line {d d' : Draft} {cs rest : List Char} (h : readLine d cs = some (d', rest)) :
    ∃ line : Line, line.Distinct ∧ line.apply d = some d' ∧
      ∀ e : Draft, readLine e cs = (line.apply e).map (·, rest) := by
  suffices hline : ∃ line : Line, line.Distinct ∧
      ∀ e : Draft, readLine e cs = (line.apply e).map (·, rest) by
    obtain ⟨line, hdistinct, hread⟩ := hline
    rw [hread d] at h
    obtain ⟨_, happly, hd⟩ := Option.map_eq_some_iff.mp h
    cases hd
    exact ⟨line, hdistinct, happly, hread⟩
  -- The form of the line is told from the text, here and for all other drafts at once.
  unfold readLine at h ⊢
  split at h
  next =>
    obtain ⟨⟨path, inner⟩, hpath, h⟩ := Option.bind_eq_some_iff.mp h
    dsimp only at h
    split at h
    next =>
      obtain ⟨_, -, h⟩ := Option.bind_eq_some_iff.mp h
      obtain ⟨_, hend, h⟩ := Option.bind_eq_some_iff.mp h
      cases h
      refine ⟨.element path, trivial, fun e => ?_⟩
      simp only [hpath, Option.bind_eq_bind, Option.bind_some]
      exact change_bind_lineEnd hend _ path
    next => cases h
  next =>
    obtain ⟨⟨path, inner⟩, hpath, h⟩ := Option.bind_eq_some_iff.mp h
    dsimp only at h
    split at h
    next =>
      obtain ⟨_, -, h⟩ := Option.bind_eq_some_iff.mp h
      obtain ⟨_, hend, h⟩ := Option.bind_eq_some_iff.mp h
      cases h
      refine ⟨.header path, trivial, fun e => ?_⟩
      simp only [hpath, Option.bind_eq_bind, Option.bind_some]
      exact change_bind_lineEnd hend _ path
    next => cases h
  next =>
    cases h
    exact ⟨.blank, trivial, fun _ => rfl⟩
  next =>
    cases h
    exact ⟨.blank, trivial, fun _ => rfl⟩
  next =>
    cases h
    exact ⟨.blank, trivial, fun _ => rfl⟩
  next =>
    obtain ⟨_, hend, h⟩ := Option.bind_eq_some_iff.mp h
    cases h
    refine ⟨.blank, trivial, fun e => ?_⟩
    rw [hend]
    rfl
  next =>
    obtain ⟨⟨path, inner⟩, hpath, h⟩ := Option.bind_eq_some_iff.mp h
    dsimp only at h
    split at h
    next =>
      obtain ⟨⟨value, after⟩, hvalue, h⟩ := Option.bind_eq_some_iff.mp h
      obtain ⟨_, -, h⟩ := Option.bind_eq_some_iff.mp h
      obtain ⟨_, hend, h⟩ := Option.bind_eq_some_iff.mp h
      cases h
      refine ⟨.entry path value, (readsDistinct _).value hvalue, fun e => ?_⟩
      simp only [hpath, hvalue, Option.bind_eq_bind, Option.bind_some]
      exact change_bind_lineEnd hend _ e.header
    next => cases h

/-! ## Documents -/

/-- Line after line, keys stay distinct. -/
theorem readLines_distinct {fuel : Nat} {d d' : Draft} {cs : List Char} (hd : d.root.Distinct)
    (h : readLines fuel d cs = some d') : d'.root.Distinct := by
  fun_induction readLines fuel d cs with
  | case1 fuel d =>
    cases h
    exact hd
  | case2 => cases h
  | case3 d fuel cs _ ih =>
    obtain ⟨⟨next, rest⟩, hline, hrest⟩ := Option.bind_eq_some_iff.mp h
    obtain ⟨line, hdistinct, happly, -⟩ := exists_line hline
    exact ih next rest (line.apply_distinct hdistinct hd happly) hrest

/-- **In a document every key comes once**, in its table and in the tables inside. -/
theorem distinct_of_read? {text : String} {entries : List (String × Value)}
    (h : read? text = some entries) : (Value.table entries).Distinct := by
  obtain ⟨d, hlines, hentries⟩ := Option.bind_eq_some_iff.mp h
  cases hentries
  exact ((readLines_distinct .nil hlines).toNode .header).toValue

end IdlBinding.Toml
