import IdlBinding.Proofs.Growth

/-!
# Composing ledgers

Merging as an operation on ledgers of one extension: when it succeeds, what it gives, and what
the order of merges has to do with either.

* `Compatible` — no name is bound in two ways by two ledgers. This decides whether a merge
  succeeds (`merged_ok_iff`), and pairwise whether a whole list can be merged (`mergeAll_ok_iff`);
* `join` — the result of a merge that succeeds. It is associative with the order of entry kept,
  and what is joined already is not entered again;
* `IsUnion` — a ledger binds what the ledgers of a list bind. Two unions of one list agree,
  whatever the order in which they were made.

The ledgers that are merged are well-formed, so that their specifiers are complete and each of
their names stands for one clash at most.
-/

namespace IdlBinding.Ledger

/-! ## Compatible ledgers -/

/-- No identifier is imported from two modules, and no name declared in two ways. -/
structure Compatible (a b : Ledger) : Prop where
  /-- an identifier of both has one specifier -/
  imports : a.imports.Compatible b.imports
  /-- a name of both has one initializer -/
  declarations : a.declarations.Compatible b.declarations

theorem Compatible.refl (l : Ledger) : l.Compatible l :=
  ⟨Bindings.Compatible.refl l.imports, Bindings.Compatible.refl l.declarations⟩

theorem Compatible.symm {a b : Ledger} (h : a.Compatible b) : b.Compatible a :=
  ⟨h.imports.symm, h.declarations.symm⟩

theorem compatible_empty (l : Ledger) (extension : String) : (empty extension).Compatible l := by
  refine ⟨fun name x y hx hy => ?_, fun name x y hx hy => ?_⟩
  · cases hx
  · cases hx

/-- The bindings of both ledgers, those of the first in front. -/
def join (a b : Ledger) : Ledger :=
  { extension := a.extension
    imports := a.imports.putAll b.imports
    declarations := a.declarations.putAll b.declarations }

theorem join_compatible_iff {a b c : Ledger} (hab : a.Compatible b) :
    (a.join b).Compatible c ↔ a.Compatible c ∧ b.Compatible c := by
  refine ⟨?_, ?_⟩
  · rintro ⟨hi, hd⟩
    obtain ⟨hai, hbi⟩ := (Bindings.putAll_compatible_iff hab.imports).mp hi
    obtain ⟨had, hbd⟩ := (Bindings.putAll_compatible_iff hab.declarations).mp hd
    exact ⟨⟨hai, had⟩, ⟨hbi, hbd⟩⟩
  · rintro ⟨ha, hb⟩
    exact ⟨(Bindings.putAll_compatible_iff hab.imports).mpr ⟨ha.imports, hb.imports⟩,
      (Bindings.putAll_compatible_iff hab.declarations).mpr ⟨ha.declarations, hb.declarations⟩⟩

theorem join_assoc (a b c : Ledger) : (a.join b).join c = a.join (b.join c) := by
  simp only [join, Bindings.putAll_assoc]

theorem join_empty (l : Ledger) (extension : String) : l.join (empty extension) = l := rfl

theorem WellFormed.empty_join {l : Ledger} (h : l.WellFormed) :
    (empty l.extension).join l = l := by
  have himports : Bindings.putAll [] l.imports = l.imports :=
    Bindings.putAll_of_disjoint h.imports fun _ _ => List.not_mem_nil
  have hdeclarations : Bindings.putAll [] l.declarations = l.declarations :=
    Bindings.putAll_of_disjoint h.declarations fun _ _ => List.not_mem_nil
  simp only [join, empty, himports, hdeclarations]

/-- Names that are bound already are not entered again. -/
theorem join_of_subset {m l : Ledger} (hi : ∀ name ∈ l.imports.names, name ∈ m.imports.names)
    (hd : ∀ name ∈ l.declarations.names, name ∈ m.declarations.names) : m.join l = m := by
  rw [join, Bindings.putAll_of_subset hi, Bindings.putAll_of_subset hd]

theorem join_join_left (a b : Ledger) : (a.join b).join a = a.join b :=
  join_of_subset (fun _ h => Bindings.mem_names_putAll.mpr (Or.inl h))
    fun _ h => Bindings.mem_names_putAll.mpr (Or.inl h)

theorem join_join_right (a b : Ledger) : (a.join b).join b = a.join b :=
  join_of_subset (fun _ h => Bindings.mem_names_putAll.mpr (Or.inr h))
    fun _ h => Bindings.mem_names_putAll.mpr (Or.inr h)

/-! ## One merge -/

/-- The ledger after a merge, or why the merge failed. -/
def merged (l other : Ledger) : Except Error Ledger :=
  (l.merge other).result.map fun _ => (l.merge other).ledger

theorem merged_eq_ok {l other m : Ledger} :
    l.merged other = .ok m ↔ (l.merge other).result = .ok () ∧ (l.merge other).ledger = m := by
  rcases h : (l.merge other).result with e | _
  · simp [merged, h, Except.map]
  · simp [merged, h, Except.map]

/-- **A merge succeeds between compatible ledgers**, and then it joins them. -/
theorem merged_ok_iff (l : Ledger) {other m : Ledger} (hother : other.WellFormed)
    (hext : other.extension = l.extension) :
    l.merged other = .ok m ↔ l.Compatible other ∧ l.join other = m := by
  -- The specifiers were completed with the same extension when they were entered in `other`.
  have hcomplete : other.imports.completed l.extension = other.imports :=
    hext ▸ hother.completed_imports
  have hiff := merge_ok_iff (l := l) hother.imports hother.declarations
  rw [hcomplete] at hiff
  rw [merged_eq_ok]
  refine ⟨?_, ?_⟩
  · rintro ⟨hok, rfl⟩
    obtain ⟨hd, hi⟩ := hiff.mp hok
    refine ⟨⟨hi, hd⟩, ?_⟩
    rw [merge_ledger_of_ok hok, hcomplete, join]
  · rintro ⟨hcompat, rfl⟩
    have hok := hiff.mpr ⟨hcompat.declarations, hcompat.imports⟩
    refine ⟨hok, ?_⟩
    rw [merge_ledger_of_ok hok, hcomplete, join]

/-- What a merge gives is well-formed and has the extension of the first ledger. -/
theorem WellFormed.merged {l other m : Ledger} (h : l.WellFormed) (hm : l.merged other = .ok m) :
    m.WellFormed ∧ m.extension = l.extension := by
  obtain ⟨-, rfl⟩ := merged_eq_ok.mp hm
  exact ⟨h.merge other, (l.merge_extends other).extension⟩

theorem merged_empty (l : Ledger) (extension : String) (h : extension = l.extension) :
    l.merged (empty extension) = .ok l :=
  (merged_ok_iff l (wellFormed_empty extension) h).mpr
    ⟨(compatible_empty l extension).symm, join_empty l extension⟩

theorem WellFormed.empty_merged {l : Ledger} (h : l.WellFormed) :
    (empty l.extension).merged l = .ok l :=
  (merged_ok_iff (empty l.extension) h rfl).mpr ⟨compatible_empty l l.extension, h.empty_join⟩

theorem WellFormed.merged_self {l : Ledger} (h : l.WellFormed) : l.merged l = .ok l :=
  (merged_ok_iff l h rfl).mpr ⟨Compatible.refl l, join_of_subset (fun _ hn => hn) fun _ hn => hn⟩

/-- After a merge, neither of the two ledgers has anything more to give. -/
theorem merged_again {a b m : Ledger} (ha : a.WellFormed) (hb : b.WellFormed)
    (hext : b.extension = a.extension) (hm : a.merged b = .ok m) :
    m.merged a = .ok m ∧ m.merged b = .ok m := by
  obtain ⟨hab, rfl⟩ := (merged_ok_iff a hb hext).mp hm
  refine ⟨?_, ?_⟩
  · refine (merged_ok_iff (a.join b) ha rfl).mpr ⟨?_, join_join_left a b⟩
    exact (join_compatible_iff hab).mpr ⟨Compatible.refl a, hab.symm⟩
  · refine (merged_ok_iff (a.join b) hb hext).mpr ⟨?_, join_join_right a b⟩
    exact (join_compatible_iff hab).mpr ⟨hab, Compatible.refl b⟩

/-- Three ledgers merge in one grouping when they do in the other, with the same result: both ask
that they are compatible two by two. -/
theorem merged_assoc {a b c m : Ledger} (hb : b.WellFormed) (hc : c.WellFormed)
    (hextb : b.extension = a.extension) (hextc : c.extension = a.extension) :
    (∃ ab, a.merged b = .ok ab ∧ ab.merged c = .ok m) ↔
      ∃ bc, b.merged c = .ok bc ∧ a.merged bc = .ok m := by
  have hextbc : c.extension = b.extension := hextc.trans hextb.symm
  refine ⟨?_, ?_⟩
  · rintro ⟨ab, hm₁, hm₂⟩
    obtain ⟨hab, rfl⟩ := (merged_ok_iff a hb hextb).mp hm₁
    obtain ⟨habc, rfl⟩ := (merged_ok_iff (a.join b) hc hextc).mp hm₂
    obtain ⟨hac, hbc⟩ := (join_compatible_iff hab).mp habc
    have hmbc : b.merged c = .ok (b.join c) := (merged_ok_iff b hc hextbc).mpr ⟨hbc, rfl⟩
    obtain ⟨hwf, hext⟩ := hb.merged hmbc
    refine ⟨b.join c, hmbc, (merged_ok_iff a hwf (hext.trans hextb)).mpr ⟨?_, ?_⟩⟩
    · exact ((join_compatible_iff hbc).mpr ⟨hab.symm, hac.symm⟩).symm
    · exact (join_assoc a b c).symm
  · rintro ⟨bc, hm₁, hm₂⟩
    obtain ⟨hwf, hext⟩ := hb.merged hm₁
    obtain ⟨hbc, rfl⟩ := (merged_ok_iff b hc hextbc).mp hm₁
    obtain ⟨habc, rfl⟩ := (merged_ok_iff a hwf (hext.trans hextb)).mp hm₂
    obtain ⟨hba, hca⟩ := (join_compatible_iff hbc).mp habc.symm
    refine ⟨a.join b, (merged_ok_iff a hb hextb).mpr ⟨hba.symm, rfl⟩,
      (merged_ok_iff (a.join b) hc hextc).mpr ⟨?_, join_assoc a b c⟩⟩
    exact (join_compatible_iff hba.symm).mpr ⟨hca.symm, hbc⟩

/-- **The laws of merging**, the order of entry included. For ledgers of one extension that calls
can lead to:
* the empty ledger is neutral on both sides, and a ledger merged into itself changes nothing;
* what was merged can be merged again without effect;
* three ledgers merge in one grouping exactly when they do in the other, with the same result. -/
theorem merged_laws {a b c : Ledger} (ha : a.Reachable) (hb : b.Reachable) (hc : c.Reachable)
    (hextb : b.extension = a.extension) (hextc : c.extension = a.extension) :
    a.merged (empty a.extension) = .ok a ∧ (empty a.extension).merged a = .ok a ∧
    a.merged a = .ok a ∧
    (∀ m, a.merged b = .ok m → m.merged a = .ok m ∧ m.merged b = .ok m) ∧
    ∀ m, (∃ ab, a.merged b = .ok ab ∧ ab.merged c = .ok m) ↔
      ∃ bc, b.merged c = .ok bc ∧ a.merged bc = .ok m := by
  refine ⟨merged_empty a a.extension rfl, ha.wellFormed.empty_merged, ha.wellFormed.merged_self,
    fun m hm => ?_, fun m => ?_⟩
  · exact merged_again ha.wellFormed hb.wellFormed hextb hm
  · exact merged_assoc hb.wellFormed hc.wellFormed hextb hextc

/-- Three ledgers that share bindings, in both groupings. -/
theorem merged_laws_shared_bindings :
    ∃ bc, merged ⟨".js", [("n", "./n.js"), ("f", "f")], []⟩ ⟨".js", [("f", "f")], [("k", "1")]⟩ =
        .ok bc ∧
      merged ⟨".js", [("n", "./n.js")], [("k", "1")]⟩ bc =
        .ok ⟨".js", [("n", "./n.js"), ("f", "f")], [("k", "1")]⟩ := by
  have ha : Reachable ⟨".js", [("n", "./n.js")], [("k", "1")]⟩ :=
    ⟨{}, [.importAs "./n" "n", .declare "k" "1"], by decide⟩
  have hb : Reachable ⟨".js", [("n", "./n.js"), ("f", "f")], []⟩ :=
    ⟨{}, [.importAs "./n.js" "n", .importAs "f" "f"], by decide⟩
  have hc : Reachable ⟨".js", [("f", "f")], [("k", "1")]⟩ :=
    ⟨{}, [.importAs "f" "f", .declare "k" "1"], by decide⟩
  have hassoc := (merged_laws ha hb hc rfl rfl).2.2.2.2
  exact (hassoc _).mp ⟨⟨".js", [("n", "./n.js"), ("f", "f")], [("k", "1")]⟩, by decide, by decide⟩

/-! ## Many merges -/

/-- Merge ledgers one after another, up to the first clash. -/
def mergeAll (l : Ledger) (others : List Ledger) : Except Error Ledger :=
  others.foldlM merged l

theorem mergeAll_nil (l : Ledger) : l.mergeAll [] = .ok l := rfl

theorem mergeAll_cons_ok {l other m : Ledger} {rest : List Ledger} :
    l.mergeAll (other :: rest) = .ok m ↔
      ∃ next, l.merged other = .ok next ∧ next.mergeAll rest = .ok m := by
  rw [mergeAll, List.foldlM_cons]
  rcases h : l.merged other with e | next
  · simp [bind, Except.bind]
  · simp [bind, Except.bind, mergeAll]

/-- Merging a list is a run of calls. -/
theorem run_of_mergeAll {l m : Ledger} {others : List Ledger} (h : l.mergeAll others = .ok m) :
    (Call.run l (others.map fun other => .merge (some other))).1 = m := by
  induction others generalizing l with
  | nil => exact Except.ok.inj h
  | cons other rest ih =>
    obtain ⟨next, hnext, hrest⟩ := mergeAll_cons_ok.mp h
    obtain ⟨-, rfl⟩ := merged_eq_ok.mp hnext
    exact ih hrest

/-- Being compatible with a join is being compatible with its parts. -/
theorem pairwise_join_iff {l other : Ledger} {rest : List Ledger} :
    (l :: other :: rest).Pairwise Compatible ↔
      l.Compatible other ∧ (l.join other :: rest).Pairwise Compatible := by
  simp only [List.pairwise_cons, List.forall_mem_cons]
  refine ⟨?_, ?_⟩
  · rintro ⟨⟨hlo, hl⟩, ho, hrest⟩
    exact ⟨hlo, fun c hc => (join_compatible_iff hlo).mpr ⟨hl c hc, ho c hc⟩, hrest⟩
  · rintro ⟨hlo, hjoin, hrest⟩
    exact ⟨⟨hlo, fun c hc => ((join_compatible_iff hlo).mp (hjoin c hc)).1⟩,
      fun c hc => ((join_compatible_iff hlo).mp (hjoin c hc)).2, hrest⟩

/-- **A list of ledgers can be merged** when they are compatible two by two, the one they are
merged into included; the result is their join. -/
theorem mergeAll_ok_iff (l : Ledger) {m : Ledger} {others : List Ledger}
    (h : ∀ other ∈ others, other.WellFormed ∧ other.extension = l.extension) :
    l.mergeAll others = .ok m ↔
      (l :: others).Pairwise Compatible ∧ others.foldl join l = m := by
  -- The ledger merged into grows with each step; that it stays compatible with what is still to
  -- come is `pairwise_join_iff`.
  induction others generalizing l with
  | nil => simp [mergeAll_nil]
  | cons other rest ih =>
    obtain ⟨⟨hwf, hext⟩, hrest⟩ := List.forall_mem_cons.mp h
    rw [mergeAll_cons_ok, pairwise_join_iff, List.foldl_cons, and_assoc]
    simp only [merged_ok_iff l hwf hext, and_assoc, exists_and_left, exists_eq_left']
    have hjoin : ∀ x ∈ rest, x.WellFormed ∧ x.extension = (l.join other).extension := hrest
    rw [ih (l.join other) hjoin]

/-! ## Unions -/

/-- A ledger binds what some ledger of the list binds, and nothing else. -/
structure IsUnion (m : Ledger) (ledgers : List Ledger) : Prop where
  /-- imports come from the ledgers of the list, and all of them -/
  imports : ∀ identifier specifier, m.import? identifier = some specifier ↔
    ∃ l ∈ ledgers, l.import? identifier = some specifier
  /-- declarations come from the ledgers of the list, and all of them -/
  declarations : ∀ key expression, m.declaration? key = some expression ↔
    ∃ l ∈ ledgers, l.declaration? key = some expression

/-- Joining compatible ledgers gives their union. -/
theorem isUnion_join {l : Ledger} {others : List Ledger}
    (h : (l :: others).Pairwise Compatible) : (others.foldl join l).IsUnion (l :: others) := by
  induction others generalizing l with
  | nil => exact ⟨by simp, by simp⟩
  | cons other rest ih =>
    obtain ⟨hlo, hjoin⟩ := pairwise_join_iff.mp h
    obtain ⟨himports, hdeclarations⟩ := ih hjoin
    refine ⟨fun identifier specifier => ?_, fun key expression => ?_⟩
    · simp only [List.foldl_cons, himports, List.exists_mem_cons_iff, ← or_assoc]
      exact or_congr_left (Bindings.lookup_putAll_eq_some_iff hlo.imports)
    · simp only [List.foldl_cons, hdeclarations, List.exists_mem_cons_iff, ← or_assoc]
      exact or_congr_left (Bindings.lookup_putAll_eq_some_iff hlo.declarations)

/-- Two unions of one list agree, in whatever order it is given. -/
theorem IsUnion.agrees {m n : Ledger} {ledgers others : List Ledger} (hm : m.IsUnion ledgers)
    (hn : n.IsUnion others) (hperm : ledgers.Perm others) (hmwf : m.WellFormed)
    (hnwf : n.WellFormed) (hext : m.extension = n.extension) : m.agrees n = true := by
  have himports : m.imports.agrees n.imports = true := by
    refine Bindings.agrees_of_lookup hmwf.imports hnwf.imports fun identifier specifier => ?_
    change m.import? identifier = some specifier ↔ n.import? identifier = some specifier
    simp only [hm.imports, hn.imports, hperm.mem_iff]
  have hdeclarations : m.declarations.agrees n.declarations = true := by
    refine Bindings.agrees_of_lookup hmwf.declarations hnwf.declarations fun key expression => ?_
    change m.declaration? key = some expression ↔ n.declaration? key = some expression
    simp only [hm.declarations, hn.declarations, hperm.mem_iff]
  rw [Ledger.agrees, himports, hdeclarations, hext, beq_self_eq_true]
  rfl

/-- What merging into an empty ledger gives is well-formed and keeps the extension. -/
theorem wellFormed_of_mergeAll {extension : String} {m : Ledger} {ledgers : List Ledger}
    (h : (empty extension).mergeAll ledgers = .ok m) :
    m.WellFormed ∧ m.extension = extension := by
  rw [← run_of_mergeAll h]
  exact ⟨Call.run_wellFormed (wellFormed_empty extension) _, (Call.run_extends _ _).extension⟩

/-- Ledgers are merged into an empty one when they are compatible two by two; this gives their
union. -/
theorem mergeAll_empty {extension : String} {ledgers : List Ledger}
    (h : ∀ l ∈ ledgers, l.WellFormed ∧ l.extension = extension) :
    ((∃ m, (empty extension).mergeAll ledgers = .ok m) ↔ ledgers.Pairwise Compatible) ∧
      ∀ m, (empty extension).mergeAll ledgers = .ok m → m.IsUnion ledgers := by
  have hcons : (empty extension :: ledgers).Pairwise Compatible ↔ ledgers.Pairwise Compatible := by
    rw [List.pairwise_cons]
    exact and_iff_right fun l _ => compatible_empty l extension
  refine ⟨?_, fun m hm => ?_⟩
  · simp only [mergeAll_ok_iff (empty extension) h, hcons, exists_and_left, exists_eq', and_true]
  · obtain ⟨hpair, rfl⟩ := (mergeAll_ok_iff (empty extension) h).mp hm
    obtain ⟨himports, hdeclarations⟩ := isUnion_join hpair
    -- The empty ledger in front has nothing to add.
    refine ⟨fun identifier specifier => ?_, fun key expression => ?_⟩
    · rw [himports, List.exists_mem_cons_iff]
      exact or_iff_right fun he => by cases he
    · rw [hdeclarations, List.exists_mem_cons_iff]
      exact or_iff_right fun he => by cases he

/-- **Composition does not depend on the order.** Let ledgers of one extension, each the result of
some run, be merged one after another into the empty ledger of that extension.
* This succeeds exactly when they are compatible two by two.
* The result binds what they bind together.
* In another order it succeeds as well or fails as well, and the results agree. -/
theorem mergeAll_order {extension : String} {ledgers : List Ledger}
    (h : ∀ l ∈ ledgers, l.Reachable ∧ l.extension = extension) :
    ((∃ m, (empty extension).mergeAll ledgers = .ok m) ↔ ledgers.Pairwise Compatible) ∧
    (∀ m, (empty extension).mergeAll ledgers = .ok m → m.IsUnion ledgers) ∧
    ∀ others, ledgers.Perm others →
      ((∃ m, (empty extension).mergeAll ledgers = .ok m) ↔
        ∃ n, (empty extension).mergeAll others = .ok n) ∧
      ∀ m n, (empty extension).mergeAll ledgers = .ok m →
        (empty extension).mergeAll others = .ok n → m.agrees n = true := by
  have hledgers : ∀ l ∈ ledgers, l.WellFormed ∧ l.extension = extension :=
    fun l hl => ⟨(h l hl).1.wellFormed, (h l hl).2⟩
  obtain ⟨hok, hunion⟩ := mergeAll_empty hledgers
  refine ⟨hok, hunion, fun others hperm => ?_⟩
  have hothers : ∀ l ∈ others, l.WellFormed ∧ l.extension = extension :=
    fun l hl => hledgers l (hperm.mem_iff.mpr hl)
  obtain ⟨hok', hunion'⟩ := mergeAll_empty hothers
  refine ⟨?_, fun m n hm hn => ?_⟩
  · rw [hok, hok']
    exact hperm.pairwise_iff fun hab => hab.symm
  · obtain ⟨hmwf, hmext⟩ := wellFormed_of_mergeAll hm
    obtain ⟨hnwf, hnext⟩ := wellFormed_of_mergeAll hn
    exact (hunion m hm).agrees (hunion' n hn) hperm hmwf hnwf (hmext.trans hnext.symm)

/-- Two ledgers in both orders: the results list their imports in different orders and agree. -/
theorem mergeAll_order_two_ledgers :
    let a : Ledger := ⟨".js", [("n", "./n.js")], [("k", "1")]⟩
    let b : Ledger := ⟨".js", [("f", "f"), ("n", "./n.js")], []⟩
    let m : Ledger := ⟨".js", [("n", "./n.js"), ("f", "f")], [("k", "1")]⟩
    let n : Ledger := ⟨".js", [("f", "f"), ("n", "./n.js")], [("k", "1")]⟩
    (empty ".js").mergeAll [a, b] = .ok m ∧ (empty ".js").mergeAll [b, a] = .ok n ∧
      m.agrees n = true := by
  have ha : Reachable ⟨".js", [("n", "./n.js")], [("k", "1")]⟩ :=
    ⟨{}, [.importAs "./n" "n", .declare "k" "1"], by decide⟩
  have hb : Reachable ⟨".js", [("f", "f"), ("n", "./n.js")], []⟩ :=
    ⟨{}, [.importAs "f" "f", .importAs "./n" "n"], by decide⟩
  intro a b m n
  have h : ∀ l ∈ [a, b], l.Reachable ∧ l.extension = ".js" :=
    List.forall_mem_cons.mpr ⟨⟨ha, rfl⟩, List.forall_mem_singleton.mpr ⟨hb, rfl⟩⟩
  obtain ⟨-, -, horder⟩ := mergeAll_order h
  obtain ⟨-, hagrees⟩ := horder [b, a] (List.Perm.swap b a [])
  have hm : (empty ".js").mergeAll [a, b] = .ok m := by decide
  have hn : (empty ".js").mergeAll [b, a] = .ok n := by decide
  exact ⟨hm, hn, hagrees m n hm hn⟩

end IdlBinding.Ledger
