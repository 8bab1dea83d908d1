import IdlBinding.Proofs.DistinctKeys
import IdlBinding.Settings

/-!
# The forms of settings documents

A document gives settings at its top or under the one key `codegen`. Both forms leave out what they
like, so that it is not plain from the forms alone which documents belong to neither.

* `IsSetting`, `Taken` — what may be given for a setting, and which settings result from it;
* `Given` — the two forms, as the entries that a document gives for settings. An array stands for
  entries with the names of the settings in their order;
* `ofTable_codegen`, `ofTable_of_ne` — the form under the key is tried first and the other one after
  it. The second never takes what the first refuses, since `codegen` is no setting
  (`ofEntries_of_codegen`). So a table with the key alone is left to the first form, and every other
  table to the second.

A document without headers is put under the key by one line in front of it (`read?_underCodegen`).
-/

namespace IdlBinding

/-! ## Documents under a key -/

namespace Toml

/-- The draft as it is made under the header of a table `codegen`. -/
def Draft.nested (d : Draft) : Draft := ⟨[("codegen", .table .header d.root)], ["codegen"]⟩

theorem Entries.updateTable_nested (f : Entries → Option Entries) (root : Entries) :
    updateTable "codegen" f [("codegen", .table .header root)] =
      (f root).map fun root => [("codegen", .table .header root)] := by
  simp only [updateTable, List.lookup_cons, beq_self_eq_true]
  rcases f root with _ | root'
  · rfl
  · simp [replace]

/-- A line after which there is still no header has none before it either, and says the same under
the header of a table. -/
theorem Line.apply_nested {line : Line} {d d' : Draft} (h : line.apply d = some d')
    (hnone : d'.header = []) : d.header = [] ∧ line.apply d.nested = some d'.nested := by
  cases line with
  | blank =>
    cases h
    exact ⟨hnone, rfl⟩
  | header path =>
    obtain ⟨root, hroot, rfl⟩ := Option.map_eq_some_iff.mp h
    obtain rfl : path = [] := hnone
    cases hroot
  | element path =>
    obtain ⟨root, hroot, rfl⟩ := Option.map_eq_some_iff.mp h
    obtain rfl : path = [] := hnone
    cases hroot
  | entry path value =>
    obtain ⟨root, hroot, rfl⟩ := Option.map_eq_some_iff.mp h
    have hheader : d.header = [] := hnone
    rw [hheader] at hroot
    refine ⟨hheader, ?_⟩
    rw [apply, Draft.nested, Entries.assignUnder, Entries.updateTable_nested, hroot]
    rfl

theorem readLines_nested {fuel : Nat} {d d' : Draft} {cs : List Char}
    (h : readLines fuel d cs = some d') (hnone : d'.header = []) :
    d.header = [] ∧ readLines fuel d.nested cs = some d'.nested := by
  fun_induction readLines fuel d cs with
  | case1 fuel d =>
    cases h
    exact ⟨hnone, by rw [readLines]⟩
  | case2 => cases h
  | case3 d fuel cs hcs ih =>
    obtain ⟨⟨next, rest⟩, hline, hrest⟩ := Option.bind_eq_some_iff.mp h
    obtain ⟨hnext, hrest'⟩ := ih next rest hrest
    obtain ⟨line, -, happly, hread⟩ := exists_line hline
    obtain ⟨hheader, happly'⟩ := line.apply_nested happly hnext
    refine ⟨hheader, ?_⟩
    rw [readLines, hread, happly']
    · exact hrest'
    · exact hcs

theorem readLines_succ {fuel : Nat} {d d' : Draft} {cs : List Char}
    (h : readLines fuel d cs = some d') : readLines (fuel + 1) d cs = some d' := by
  fun_induction readLines fuel d cs with
  | case1 fuel d =>
    rw [readLines]
    exact h
  | case2 => cases h
  | case3 d fuel cs hcs ih =>
    obtain ⟨⟨next, rest⟩, hline, hrest⟩ := Option.bind_eq_some_iff.mp h
    rw [readLines, hline]
    · exact ih next rest hrest
    · exact hcs

theorem readLines_mono {fuel fuel' : Nat} (hle : fuel ≤ fuel') {d d' : Draft} {cs : List Char}
    (h : readLines fuel d cs = some d') : readLines fuel' d cs = some d' := by
  induction hle with
  | refl => exact h
  | step _ ih => exact readLines_succ ih

/-- The line that opens the table `codegen`. -/
theorem readLine_codegen (cs : List Char) :
    readLine {} ("[codegen]\n".toList ++ cs) = some (Draft.nested {}, cs) := rfl

/-- The text is a document without headers. -/
def Headless (text : String) : Prop :=
  ∃ root, readLines ((dropMark text.toList).length + 1) {} (dropMark text.toList) = some ⟨root, []⟩

theorem headless_iff {text : String} : Headless text ↔
    (readLines ((dropMark text.toList).length + 1) {} (dropMark text.toList)).map Draft.header =
      some [] := by
  rw [Option.map_eq_some_iff]
  constructor
  · rintro ⟨root, h⟩
    exact ⟨_, h, rfl⟩
  · rintro ⟨⟨root, header⟩, h, rfl⟩
    exact ⟨root, h⟩

/-- The text behind the line that opens the table `codegen`. -/
def underCodegen (text : String) : String :=
  "[codegen]\n" ++ String.ofList (dropMark text.toList)

/-- **One line puts a document without headers under the key.** -/
theorem read?_underCodegen {text : String} {entries : List (String × Value)} (h : Headless text)
    (hread : read? text = some entries) :
    read? (underCodegen text) = some [("codegen", .table entries)] := by
  obtain ⟨root, hlines⟩ := h
  have hentries : Node.entriesToValues root = entries := by
    rw [read?, hlines] at hread
    exact Option.some.inj hread
  have htext : dropMark (underCodegen text).toList =
      "[codegen]\n".toList ++ dropMark text.toList := by
    simp only [underCodegen, String.toList_append, String.toList_ofList]
    rfl
  rw [read?, htext]
  generalize dropMark text.toList = cs at hlines ⊢
  have hfuel : cs.length + 1 ≤ ("[codegen]\n".toList ++ cs).length := by
    rw [List.length_append, Nat.add_comm]
    exact Nat.add_le_add_right (by decide) _
  have hrest := readLines_mono hfuel (readLines_nested hlines rfl).2
  rw [readLines, readLine_codegen]
  · simp only [Option.bind_eq_bind, Option.bind_some, hrest]
    rw [← hentries, Draft.nested, Node.entriesToValues, Node.toValue, Node.entriesToValues]
  · exact List.cons_ne_nil _ _

end Toml

namespace Settings

/-! ## Settings and their values -/

/-- The entry is a setting: a string for the extension, an integer of one byte for the width. -/
inductive IsSetting : String × Toml.Value → Prop
  | extension (text : String) : IsSetting ("source_extension", .string text)
  | indent {n : Int} (lower : 0 ≤ n) (upper : n ≤ 255) : IsSetting ("indent", .integer n)

/-- The settings take what the entries give, and what these leave out from the `base`. -/
structure Taken (base : Settings) (entries : List (String × Toml.Value)) (s : Settings) :
    Prop where
  /-- the extension that is given -/
  extension : ∀ text, ("source_extension", .string text) ∈ entries → s.extension = text
  /-- the width that is given -/
  indent : ∀ n : Int, ("indent", .integer n) ∈ entries → (s.indentWidth : Int) = n
  /-- no extension is given -/
  noExtension : "source_extension" ∉ entries.map Prod.fst → s.extension = base.extension
  /-- no width is given -/
  noIndent : "indent" ∉ entries.map Prod.fst → s.indentWidth = base.indentWidth

theorem isSetting_iff {key : String} {value : Toml.Value} : IsSetting (key, value) ↔
    (key = "source_extension" ∧ ∃ text, value = .string text) ∨
    (key = "indent" ∧ ∃ n : Int, 0 ≤ n ∧ n ≤ 255 ∧ value = .integer n) := by
  constructor
  · intro h
    cases h with
    | extension text => exact .inl ⟨rfl, text, rfl⟩
    | @indent n lower upper => exact .inr ⟨rfl, n, lower, upper, rfl⟩
  · rintro (⟨rfl, text, rfl⟩ | ⟨rfl, n, lower, upper, rfl⟩)
    · exact .extension text
    · exact .indent lower upper

theorem not_isSetting_codegen (value : Toml.Value) : ¬ IsSetting ("codegen", value) := by
  simp [isSetting_iff]

theorem taken_nil_iff {s t : Settings} : Taken s [] t ↔ s = t := by
  constructor
  · intro h
    obtain ⟨extension, width⟩ := t
    obtain rfl : extension = s.extension := h.noExtension List.not_mem_nil
    obtain rfl : width = s.indentWidth := h.noIndent List.not_mem_nil
    rfl
  · rintro rfl
    constructor <;> simp

variable {s t : Settings} {entries : List (String × Toml.Value)}

/-- An extension in front goes into the base of what follows, where there is no other. -/
theorem taken_cons_extension_iff {text : String}
    (hfresh : "source_extension" ∉ entries.map Prod.fst) :
    Taken s (("source_extension", .string text) :: entries) t ↔
      Taken { s with extension := text } entries t := by
  constructor
  · intro h
    refine ⟨fun text hmem => h.extension text (List.mem_cons_of_mem _ hmem),
      fun n hmem => h.indent n (List.mem_cons_of_mem _ hmem),
      fun _ => h.extension text List.mem_cons_self, fun hnone => h.noIndent ?_⟩
    simpa using hnone
  · intro h
    refine ⟨fun text' hmem => ?_, fun n hmem => h.indent n (by simpa using hmem),
      fun hnone => absurd List.mem_cons_self hnone,
      fun hnone => h.noIndent fun hmem => hnone (List.mem_cons_of_mem _ hmem)⟩
    rcases List.mem_cons.mp hmem with heq | hmem
    · cases heq
      exact h.noExtension hfresh
    · exact h.extension text' hmem

/-- So does a width. -/
theorem taken_cons_indent_iff {n : Int} (lower : 0 ≤ n)
    (hfresh : "indent" ∉ entries.map Prod.fst) :
    Taken s (("indent", .integer n) :: entries) t ↔
      Taken { s with indentWidth := n.toNat } entries t := by
  constructor
  · intro h
    refine ⟨fun text hmem => h.extension text (List.mem_cons_of_mem _ hmem),
      fun n hmem => h.indent n (List.mem_cons_of_mem _ hmem), fun hnone => h.noExtension ?_,
      fun _ => ?_⟩
    · simpa using hnone
    · have hwidth := h.indent n List.mem_cons_self
      exact Int.ofNat.inj (hwidth.trans (Int.toNat_of_nonneg lower).symm)
  · intro h
    refine ⟨fun text hmem => h.extension text (by simpa using hmem), fun n' hmem => ?_,
      fun hnone => h.noExtension fun hmem => hnone (List.mem_cons_of_mem _ hmem),
      fun hnone => absurd List.mem_cons_self hnone⟩
    rcases List.mem_cons.mp hmem with heq | hmem
    · cases heq
      rw [h.noIndent hfresh]
      exact Int.toNat_of_nonneg lower
    · exact h.indent n' hmem

/-! ## Entries one after another -/

/-- What one entry does to settings. -/
inductive Step (s : Settings) : String × Toml.Value → Settings → Prop
  | extension (text : String) :
    Step s ("source_extension", .string text) { s with extension := text }
  | indent {n : Int} (lower : 0 ≤ n) (upper : n ≤ 255) :
    Step s ("indent", .integer n) { s with indentWidth := n.toNat }

theorem withEntry_eq_some_iff {entry : String × Toml.Value} :
    s.withEntry entry = some t ↔ Step s entry t := by
  constructor
  · intro h
    obtain ⟨key, value⟩ := entry
    simp only [withEntry] at h
    split at h
    · cases value with
      | string text =>
        cases h
        exact .extension text
      | _ => cases h
    · cases value with
      | integer n =>
        rw [withIndent] at h
        split at h
        next hn =>
          cases h
          rw [Bool.and_eq_true, decide_eq_true_iff, decide_eq_true_iff] at hn
          exact .indent hn.1 hn.2
        next => cases h
      | _ => cases h
    · cases h
  · intro h
    cases h with
    | extension text => rfl
    | indent lower upper => simp [withEntry, withIndent, lower, upper]

/-- **Entries with distinct keys are taken up exactly if all of them are settings.** -/
theorem foldlM_withEntry_eq_some_iff (hnodup : (entries.map Prod.fst).Nodup) :
    entries.foldlM withEntry s = some t ↔
      (∀ entry ∈ entries, IsSetting entry) ∧ Taken s entries t := by
  induction entries generalizing s with
  | nil => simp [taken_nil_iff]
  | cons entry entries ih =>
    obtain ⟨hfresh, hkeys⟩ := List.nodup_cons.mp hnodup
    rw [List.foldlM_cons, Option.bind_eq_bind, Option.bind_eq_some_iff, List.forall_mem_cons]
    constructor
    · rintro ⟨s', hentry, hentries⟩
      obtain ⟨hsettings, htaken⟩ := (ih hkeys).mp hentries
      cases withEntry_eq_some_iff.mp hentry with
      | extension text =>
        exact ⟨⟨.extension text, hsettings⟩, (taken_cons_extension_iff hfresh).mpr htaken⟩
      | indent lower upper =>
        exact ⟨⟨.indent lower upper, hsettings⟩, (taken_cons_indent_iff lower hfresh).mpr htaken⟩
    · rintro ⟨⟨hsetting, hsettings⟩, htaken⟩
      cases hsetting with
      | extension text =>
        exact ⟨_, withEntry_eq_some_iff.mpr (.extension text),
          (ih hkeys).mpr ⟨hsettings, (taken_cons_extension_iff hfresh).mp htaken⟩⟩
      | indent lower upper =>
        exact ⟨_, withEntry_eq_some_iff.mpr (.indent lower upper),
          (ih hkeys).mpr ⟨hsettings, (taken_cons_indent_iff lower hfresh).mp htaken⟩⟩

theorem withEntry_eq_none_iff {entry : String × Toml.Value} :
    s.withEntry entry = none ↔ ¬ IsSetting entry := by
  constructor
  · intro hnone hsetting
    cases hsetting with
    | extension text => cases hnone
    | indent lower upper =>
      rw [withEntry_eq_some_iff.mpr (.indent lower upper)] at hnone
      cases hnone
  · intro hsetting
    rw [Option.eq_none_iff_forall_ne_some]
    intro t ht
    cases withEntry_eq_some_iff.mp ht with
    | extension text => exact hsetting (.extension text)
    | indent lower upper => exact hsetting (.indent lower upper)

/-- Entries are refused for one that is no setting, whatever the others are. -/
theorem foldlM_withEntry_eq_none_iff :
    entries.foldlM withEntry s = none ↔ ∃ entry ∈ entries, ¬ IsSetting entry := by
  induction entries generalizing s with
  | nil => simp
  | cons entry entries ih =>
    rw [List.foldlM_cons, Option.bind_eq_bind, List.exists_mem_cons_iff]
    rcases hentry : s.withEntry entry with _ | s'
    · exact iff_of_true rfl (.inl (withEntry_eq_none_iff.mp hentry))
    · have hsetting : ¬ ¬ IsSetting entry := by
        rw [← @withEntry_eq_none_iff s, hentry]
        simp
      rw [Option.bind_some, ih, or_iff_right hsetting]

theorem ofEntries_eq_some_iff (hnodup : (entries.map Prod.fst).Nodup) :
    ofEntries entries = some t ↔ (∀ entry ∈ entries, IsSetting entry) ∧ Taken {} entries t :=
  foldlM_withEntry_eq_some_iff hnodup

theorem ofEntries_eq_none_iff :
    ofEntries entries = none ↔ ∃ entry ∈ entries, ¬ IsSetting entry :=
  foldlM_withEntry_eq_none_iff

/-! ## Settings under a key -/

/-- The entries that a value gives for settings. -/
inductive Inside : Toml.Value → List (String × Toml.Value) → Prop
  | table (entries : List (String × Toml.Value)) : Inside (.table entries) entries
  | array {items : List Toml.Value} (short : items.length ≤ 2) :
    Inside (.array items) (["source_extension", "indent"].zip items)

namespace Inside

variable {value : Toml.Value}

theorem nodup (h : Inside value entries) (hdistinct : value.Distinct) :
    (entries.map Prod.fst).Nodup := by
  cases h with
  | table =>
    cases hdistinct with
    | table keys _ => exact keys
  | @array items short =>
    rcases items with _ | ⟨extension, _ | ⟨width, items⟩⟩
    · exact List.nodup_nil
    · exact List.nodup_singleton _
    · simp

/-- A value gives the settings of its entries. -/
theorem ofValue_eq (h : Inside value entries) : ofValue value = ofEntries entries := by
  cases h with
  | table => rfl
  | @array items short =>
    rcases items with _ | ⟨extension, _ | ⟨width, _ | ⟨next, items⟩⟩⟩
    · rfl
    · exact (Option.bind_fun_some _).symm
    · exact bind_congr fun s => (Option.bind_fun_some _).symm
    · simp at short

end Inside

theorem exists_inside {value : Toml.Value} (h : ofValue value = some t) :
    ∃ entries, Inside value entries := by
  cases value with
  | table entries => exact ⟨entries, .table entries⟩
  | array items =>
    rcases items with _ | ⟨extension, _ | ⟨width, _ | ⟨next, items⟩⟩⟩
    · exact ⟨_, .array (by simp)⟩
    · exact ⟨_, .array (by simp)⟩
    · exact ⟨_, .array (by simp)⟩
    · cases h
  | _ => cases h

/-! ## The two forms -/

/-- The entries that a document gives for settings. -/
inductive Given : List (String × Toml.Value) → List (String × Toml.Value) → Prop
  | top (entries : List (String × Toml.Value)) : Given entries entries
  | nested {value : Toml.Value} {entries : List (String × Toml.Value)}
    (inside : Inside value entries) : Given [("codegen", value)] entries

theorem nested?_eq_some_iff {table : List (String × Toml.Value)} : nested? table = some t ↔
    ∃ value entries, table = [("codegen", value)] ∧ Inside value entries ∧
      ofEntries entries = some t := by
  constructor
  · intro h
    unfold nested? at h
    split at h
    next value =>
      obtain ⟨entries, hinside⟩ := exists_inside h
      exact ⟨value, entries, rfl, hinside, hinside.ofValue_eq ▸ h⟩
    next => cases h
  · rintro ⟨value, entries, rfl, hinside, h⟩
    rw [nested?, hinside.ofValue_eq, h]

/-- A table with the key `codegen` is not taken for settings. -/
theorem ofEntries_of_codegen {value : Toml.Value} (h : ("codegen", value) ∈ entries) :
    ofEntries entries = none :=
  ofEntries_eq_none_iff.mpr ⟨_, h, not_isSetting_codegen value⟩

/-- A table with the key `codegen` alone is left to the first form. -/
theorem ofTable_codegen (value : Toml.Value) : ofTable [("codegen", value)] = ofValue value := by
  rw [ofTable, nested?, ofEntries_of_codegen List.mem_cons_self, Option.or_none]

section Tables

variable {table : List (String × Toml.Value)}

/-- The entries that a document gives for settings have distinct keys. -/
theorem Given.nodup (h : Given table entries) (hdistinct : (Toml.Value.table table).Distinct) :
    (entries.map Prod.fst).Nodup := by
  cases hdistinct with
  | table keys values =>
    cases h with
    | top => exact keys
    | nested inside => exact inside.nodup (values _ List.mem_cons_self)

theorem ofTable_eq_some_iff :
    ofTable table = some t ↔ ∃ entries, Given table entries ∧ ofEntries entries = some t := by
  rw [ofTable, Option.or_eq_some_iff, nested?_eq_some_iff]
  constructor
  · rintro (⟨value, entries, rfl, hinside, h⟩ | ⟨-, h⟩)
    · exact ⟨entries, .nested hinside, h⟩
    · exact ⟨table, .top table, h⟩
  · rintro ⟨entries, hgiven, h⟩
    cases hgiven with
    | top =>
      -- A table that the first form takes has the key, so the second does not take it.
      refine .inr ⟨Option.eq_none_iff_forall_ne_some.mpr fun t' ht' => ?_, h⟩
      obtain ⟨value, -, rfl, -, -⟩ := nested?_eq_some_iff.mp ht'
      rw [ofEntries_of_codegen List.mem_cons_self] at h
      cases h
    | nested hinside => exact .inl ⟨_, entries, rfl, hinside, h⟩

theorem ofTable_eq_none_iff :
    ofTable table = none ↔ ∀ entries, Given table entries → ofEntries entries = none := by
  simp only [Option.eq_none_iff_forall_ne_some, ne_eq, ofTable_eq_some_iff]
  constructor
  · intro h entries hgiven t ht
    exact h t ⟨entries, hgiven, ht⟩
  · rintro h t ⟨entries, hgiven, ht⟩
    exact h entries hgiven t ht

/-- Every other table is left to the second form. -/
theorem ofTable_of_ne (h : ∀ value, table ≠ [("codegen", value)]) :
    ofTable table = ofEntries table := by
  rw [ofTable, nested?, Option.none_or]
  exact h

/-- Without the key `codegen`, a table gives under this key what it gives at the top. -/
theorem ofTable_nested (h : "codegen" ∉ table.map Prod.fst) :
    ofTable [("codegen", .table table)] = ofTable table := by
  rw [ofTable_codegen, ofValue, ofTable_of_ne]
  rintro value rfl
  exact h List.mem_cons_self

/-- What stands under the key `codegen` is refused for itself, and the other form does not help. -/
theorem ofTable_of_codegen {value : Toml.Value} (hmem : ("codegen", value) ∈ table)
    (h : ∀ entries, Inside value entries → ∃ entry ∈ entries, ¬ IsSetting entry) :
    ofTable table = none := by
  refine ofTable_eq_none_iff.mpr fun entries hgiven => ?_
  cases hgiven with
  | top => exact ofEntries_of_codegen hmem
  | nested hinside =>
    cases List.mem_singleton.mp hmem
    exact ofEntries_eq_none_iff.mpr (h entries hinside)

end Tables

/-! ## Documents -/

section Documents

variable {text : String} {table : List (String × Toml.Value)}

theorem ofToml_eq (hread : Toml.read? text = some table) :
    ofToml text = (ofTable table).elim (.error .invalidSettings) .ok := by
  rw [ofToml, hread, Option.bind_some]
  rcases ofTable table with _ | s
  · rfl
  · rfl

theorem ofToml_eq_ok_iff (hread : Toml.read? text = some table) :
    ofToml text = .ok s ↔ ofTable table = some s := by
  rw [ofToml_eq hread]
  rcases ofTable table with _ | s'
  · simp
  · simp

theorem ofToml_eq_error_iff (hread : Toml.read? text = some table) :
    ofToml text = .error .invalidSettings ↔ ofTable table = none := by
  rw [ofToml_eq hread]
  rcases ofTable table with _ | s'
  · simp
  · simp

/-- **A document gives settings in two forms and no other.** The table of a document is accepted
exactly if it gives settings and nothing else: at its top, or in a table or an array that stands
under its only key `codegen`. The settings are those given and the defaults for the others.

Every other document is refused. So a table without the key `codegen` gives the same under this key
as at the top, and what is no setting under the key is refused, whatever stands beside it. -/
theorem ofToml_accepts_two_forms (hread : Toml.read? text = some table) :
    (∀ s, ofToml text = .ok s ↔ ∃ entries, Given table entries ∧
      (∀ entry ∈ entries, IsSetting entry) ∧ Taken ⟨".js", 2⟩ entries s) ∧
    (ofToml text = .error .invalidSettings ↔
      ∀ entries, Given table entries → ∃ entry ∈ entries, ¬ IsSetting entry) ∧
    ("codegen" ∉ table.map Prod.fst →
      (∀ nested, Toml.read? nested = some [("codegen", .table table)] →
        ofToml nested = ofToml text) ∧
      (Toml.Headless text → ofToml (Toml.underCodegen text) = ofToml text)) ∧
    ∀ value, ("codegen", value) ∈ table →
      (∀ entries, Inside value entries → ∃ entry ∈ entries, ¬ IsSetting entry) →
      ofToml text = .error .invalidSettings := by
  have hdistinct := Toml.distinct_of_read? hread
  refine ⟨fun s => ?_, ?_, fun hkey => ?_, fun value hmem h => ?_⟩
  · rw [ofToml_eq_ok_iff hread, ofTable_eq_some_iff]
    exact exists_congr fun entries => and_congr_right fun hgiven =>
      ofEntries_eq_some_iff (hgiven.nodup hdistinct)
  · rw [ofToml_eq_error_iff hread, ofTable_eq_none_iff]
    exact forall₂_congr fun entries _ => ofEntries_eq_none_iff
  · have hnested : ∀ nested, Toml.read? nested = some [("codegen", .table table)] →
        ofToml nested = ofToml text := by
      intro nested hnested
      rw [ofToml_eq hnested, ofToml_eq hread, ofTable_nested hkey]
    exact ⟨hnested, fun hheadless => hnested _ (Toml.read?_underCodegen hheadless hread)⟩
  · exact (ofToml_eq_error_iff hread).mpr (ofTable_of_codegen hmem h)

end Documents

/-- A width at the top and under the key, and an array whose second item is no width. -/
theorem ofToml_accepts_two_forms_width_and_array :
    (Toml.read? "indent = 4\n" = some [("indent", .integer 4)] ∧ Toml.Headless "indent = 4\n" ∧
      ofToml "indent = 4\n" = .ok ⟨".js", 4⟩ ∧
      ofToml "[codegen]\nindent = 4\n" = ofToml "indent = 4\n") ∧
    Toml.read? "codegen = ['.mjs', 256]" =
      some [("codegen", .array [.string ".mjs", .integer 256])] ∧
    ofToml "codegen = ['.mjs', 256]" = .error .invalidSettings := by
  have hwidth : Toml.read? "indent = 4\n" = some [("indent", .integer 4)] := by decide +kernel
  have hheadless : Toml.Headless "indent = 4\n" := Toml.headless_iff.mpr (by decide +kernel)
  have harray : Toml.read? "codegen = ['.mjs', 256]" =
      some [("codegen", .array [.string ".mjs", .integer 256])] := by decide +kernel
  obtain ⟨haccepted, -, hnested, -⟩ := ofToml_accepts_two_forms hwidth
  obtain ⟨-, -, -, hrefused⟩ := ofToml_accepts_two_forms harray
  refine ⟨⟨hwidth, hheadless, ?_, ?_⟩, harray, ?_⟩
  · refine (haccepted _).mpr ⟨_, .top _, ?_, by constructor <;> simp⟩
    exact List.forall_mem_singleton.mpr (.indent (by decide) (by decide))
  · have hline : Toml.underCodegen "indent = 4\n" = "[codegen]\nindent = 4\n" := by decide +kernel
    rw [← hline]
    exact (hnested (by decide)).2 hheadless
  · refine hrefused _ List.mem_cons_self fun entries hinside => ?_
    cases hinside
    exact ⟨("indent", .integer 256), by simp, by simp [isSetting_iff]⟩

end Settings

end IdlBinding
