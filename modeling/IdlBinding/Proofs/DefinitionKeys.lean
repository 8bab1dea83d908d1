import IdlBinding.Proofs.KeyText
import IdlBinding.Proofs.Rendering
import Mathlib.Data.List.Nodup

/-!
# The keys of a definition

A definition is an object literal, in which a later property replaces an earlier one with the same
key. A table tells keys apart as keys; in the literal they stand as texts. The two agree for all
texts that are identifiers. They do not for symbols: the two spellings of a well-known symbol are
different keys of a table and one key of the literal.

The main statement says when the keys of a definition are distinct: exactly when no well-known
symbol was used in both spellings at that place.
-/

namespace IdlBinding

namespace PropertyKey

/-- The name has letters, digits, underscores and hyphens only. -/
def IsIdentifier (name : String) : Prop :=
  ∀ c ∈ name.toList, c.isAlphanum = true ∨ c = '_' ∨ c = '-'

instance (name : String) : Decidable (IsIdentifier name) :=
  List.decidableBAll _ name.toList

theorem IsIdentifier.head? {name : String} (h : IsIdentifier name) :
    name.toList.head? ≠ some '[' := by
  intro hhead
  have hbracket := h '[' (List.mem_of_mem_head? hhead)
  revert hbracket
  decide

end PropertyKey

namespace Addition

open PropertyKey

/-- **When a definition has two properties with one key.** After any run of calls in which text keys
are identifiers, the keys of the statement for a place are distinct exactly when no well-known
symbol was used there in both of its spellings. -/
theorem definition_keys_nodup_iff (s : Settings) (name : String) (isGlobal : Bool)
    (calls : List Addition) (hnames : ∀ c ∈ calls, ∀ n, c.key = .text n → IsIdentifier n)
    (w : Place) {target : String} {entries : List (String × String)}
    (h : (run (.new s name isGlobal) calls).definition w = .ok (.define target entries)) :
    (entries.map Prod.fst).Nodup ↔
      ¬ ∃ n, (∃ c ∈ calls, c.place = w ∧ c.key = .symbol ("Symbol." ++ n)) ∧
        ∃ c ∈ calls, c.place = w ∧ c.key = .symbol ("Symbol(Symbol." ++ n ++ ")") := by
  obtain ⟨haccess, hstatement⟩ := (PropertyTable.definition_eq_ok_iff _ w _).mp h
  obtain ⟨-, rfl⟩ := Statement.define.inj hstatement
  have hkeys := keys_run s name isGlobal calls w
  generalize (run (.new s name isGlobal) calls).properties w = ps at haccess hkeys
  have hnodup : ps.keys.Nodup := by
    rw [hkeys]
    exact nodup_eraseDups _
  have hused (k : PropertyKey) : k ∈ ps.keys ↔ ∃ c ∈ calls, c.place = w ∧ c.key = k := by
    rw [hkeys, List.mem_eraseDups, mem_usedKeys]
  have htexts : (ps.map PropertyTable.written).map Prod.fst = ps.keys.map accessText := by
    rw [Properties.keys, List.map_map, List.map_map]
    rfl
  replace haccess : ∀ k ∈ ps.keys, k.access = .ok k.accessText := List.forall_mem_map.mpr haccess
  rw [htexts, List.nodup_map_iff_inj_on hnodup]
  constructor
  · rintro hinj ⟨n, hbare, hwrapped⟩
    rw [← hused] at hbare hwrapped
    -- Both spellings lead to one text, so that the two keys would be the same.
    obtain ⟨m, hne, hm, htext⟩ := access_symbol_eq_ok_iff.mp (haccess _ hbare)
    obtain rfl := hm.unique .bare
    have hother := access_symbol_eq_ok_iff.mpr ⟨m, hne, .wrapped, htext⟩
    have heq := hinj _ hbare _ hwrapped ((access_eq_ok_iff _ _).mp hother).2
    simp [String.ext_iff] at heq
  · intro hnone a ha b hb htext
    have hhead : ∀ n, a = .text n ∨ b = .text n → n.toList.head? ≠ some '[' := by
      rintro n (rfl | rfl)
      · obtain ⟨c, hc, -, hkey⟩ := (hused _).mp ha
        exact (hnames c hc n hkey).head?
      · obtain ⟨c, hc, -, hkey⟩ := (hused _).mp hb
        exact (hnames c hc n hkey).head?
    rcases eq_or_spellings_of_access hhead (haccess a ha) (htext ▸ haccess b hb) with
      heq | ⟨n, d, d', rfl, rfl, hd, hd'⟩
    · exact heq
    · rw [hused] at ha hb
      cases hd with
      | bare =>
        cases hd' with
        | bare => rfl
        | wrapped => exact absurd ⟨n, ha, hb⟩ hnone
      | wrapped =>
        cases hd' with
        | bare => exact absurd ⟨n, hb, ha⟩ hnone
        | wrapped => rfl

/-- Calls with each kind of key. A symbol has both of its spellings, but at different places. -/
def mixedCalls : List Addition :=
  [.property .prototype (.text "aria-label") "1" {},
    .property .prototype (.symbol "Symbol.iterator") "2" {},
    .staticProperty (.symbol "Symbol(Symbol.iterator)") "3" {}]

theorem definition_keys_nodup_iff_mixedCalls :
    (∀ c ∈ mixedCalls, ∀ n, c.key = .text n → IsIdentifier n) ∧ ∃ entries,
      (run (.new {} "Node" false) mixedCalls).definition .prototype =
        .ok (.define "Node.prototype" entries) ∧ (entries.map Prod.fst).Nodup := by
  have hnames : ∀ c ∈ mixedCalls, ∀ n, c.key = .text n → IsIdentifier n := by
    intro c hc n hn
    simp only [mixedCalls, List.mem_cons, List.not_mem_nil, or_false] at hc
    rcases hc with rfl | rfl | rfl
    · obtain rfl : "aria-label" = n := PropertyKey.text.inj hn
      decide
    · cases hn
    · cases hn
  refine ⟨hnames, _, rfl, ?_⟩
  rw [definition_keys_nodup_iff {} "Node" false mixedCalls hnames .prototype rfl]
  rintro ⟨n, -, c, hc, hplace, hkey⟩
  simp only [mixedCalls, List.mem_cons, List.not_mem_nil, or_false] at hc
  rcases hc with rfl | rfl | rfl
  · cases hkey
  · simp [key, String.ext_iff] at hkey
  · cases hplace

/-- The iterator of a prototype, described in both ways. -/
theorem definition_keys_two_spellings :
    let calls : List Addition :=
      [.property .prototype (.symbol "Symbol.iterator") "1" {},
        .property .prototype (.symbol "Symbol(Symbol.iterator)") "2" {}]
    (∀ c ∈ calls, ∀ n, c.key = .text n → IsIdentifier n) ∧ ∃ entries,
      (run (.new {} "Node" false) calls).definition .prototype =
        .ok (.define "Node.prototype" entries) ∧
      entries.map Prod.fst = ["[Symbol.iterator]", "[Symbol.iterator]"] ∧
      ¬ (entries.map Prod.fst).Nodup := by
  refine ⟨?_, _, rfl, rfl, by decide⟩
  simp [key]

end Addition

end IdlBinding
