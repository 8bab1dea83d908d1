import IdlBinding.Proofs.Additions
import IdlBinding.Proofs.Emitting

/-!
# Rendering a table

A key is `Accessible` if it can be referred to. The statement of a place succeeds when all its keys
are, and then has one entry for each property, in their order (`definition_eq_ok_iff`). Rendering
succeeds when all keys of the table are, and gives the texts of the three statements one after
another (`render_eq_ok_iff`); a place without properties has an empty one.
-/

namespace IdlBinding

/-! ## Steps that may fail

What is known of a step is when it succeeds and with which result: `x = .ok b ↔ p ∧ b = a`. -/

section Steps

variable {α β ε : Type}

theorem bind_eq_ok_iff {x : Except ε α} {p : Prop} {a : α} (hx : ∀ b, x = .ok b ↔ p ∧ b = a)
    (g : α → β) (r : β) :
    (x.bind fun b => .ok (g b)) = .ok r ↔ p ∧ r = g a := by
  rcases x with e | b
  · have hnot : ¬ p := by
      intro hp
      cases (hx a).mpr ⟨hp, rfl⟩
    simp [Except.bind, hnot]
  · obtain ⟨hp, rfl⟩ := (hx b).mp rfl
    simp [Except.bind, hp, eq_comm]

theorem mapM_eq_ok_iff {f : α → Except ε β} {p : α → Prop} {g : α → β}
    (hf : ∀ a b, f a = .ok b ↔ p a ∧ b = g a) (l : List α) (r : List β) :
    l.mapM f = .ok r ↔ (∀ a ∈ l, p a) ∧ r = l.map g := by
  induction l generalizing r with
  | nil => simp [pure, Except.pure, eq_comm]
  | cons a l ih =>
    rw [List.mapM_cons, List.forall_mem_cons, List.map_cons]
    rcases ha : f a with e | b
    · have hnot : ¬ p a := by
        intro hp
        rw [(hf a (g a)).mpr ⟨hp, rfl⟩] at ha
        cases ha
      simp [bind, Except.bind, hnot]
    · obtain ⟨hp, rfl⟩ := (hf a b).mp ha
      refine (bind_eq_ok_iff ih (g a :: ·) r).trans ?_
      simp [hp]

end Steps

/-! ## Keys -/

namespace PropertyKey

/-- The text of a key in an object literal, where there is one. -/
def accessText (key : PropertyKey) : String :=
  match key.access with
  | .ok found => found
  | .error _ => ""

/-- The key can be referred to. -/
def Accessible (key : PropertyKey) : Prop := key.access = .ok key.accessText

theorem access_eq_ok_iff (key : PropertyKey) (found : String) :
    key.access = .ok found ↔ key.Accessible ∧ found = key.accessText := by
  rw [Accessible, accessText]
  rcases key.access with e | text
  · simp
  · simp [eq_comm]

end PropertyKey

/-! ## Statements -/

namespace PropertyTable

/-- The access expression and the descriptor of a property. -/
def written (entry : PropertyKey × Property) : String × String :=
  (entry.1.accessText, (Shape.sealed.patch entry.2.shape .data (some entry.2.value)).getD "")

/-- The statement that defines the properties of a place, provided that its keys are accessible. -/
def statement (t : PropertyTable) (w : Place) : Statement :=
  .define (t.target w) ((t.properties w).map written)

theorem definitionEntry_eq_ok_iff (entry : PropertyKey × Property) (r : String × String) :
    definitionEntry entry = .ok r ↔ entry.1.Accessible ∧ r = written entry :=
  bind_eq_ok_iff entry.1.access_eq_ok_iff _ r

/-- **The statement of a place** can be made when its keys are accessible. -/
theorem definition_eq_ok_iff (t : PropertyTable) (w : Place) (s : Statement) :
    t.definition w = .ok s ↔
      (∀ entry ∈ t.properties w, entry.1.Accessible) ∧ s = t.statement w :=
  bind_eq_ok_iff (mapM_eq_ok_iff definitionEntry_eq_ok_iff (t.properties w)) _ s

/-- The text of the statement of a place. -/
def statementText (t : PropertyTable) (w : Place) : String :=
  Fragment.render t.indent (t.statement w).fragments

/-- A place without properties has no text. -/
theorem statementText_of_empty {t : PropertyTable} {w : Place} (h : t.properties w = []) :
    t.statementText w = "" := by
  rw [statementText, statement, h]
  rfl

/-- **Rendering** can be done when all keys are accessible, and puts the statements together. -/
theorem render_eq_ok_iff (t : PropertyTable) (text : String) :
    t.render = .ok text ↔ (∀ w, ∀ entry ∈ t.properties w, entry.1.Accessible) ∧
      text = t.statementText .static ++ t.statementText .prototype ++
        t.statementText .perInstance := by
  have hall : (∀ w ∈ places, ∀ entry ∈ t.properties w, entry.1.Accessible) ↔
      ∀ w, ∀ entry ∈ t.properties w, entry.1.Accessible := by
    refine ⟨fun h w => h w ?_, fun h w _ => h w⟩
    cases w <;> simp [places]
  have htext : Fragment.render t.indent ((places.map t.statement).flatMap Statement.fragments) =
      t.statementText .static ++ t.statementText .prototype ++ t.statementText .perInstance := by
    simp [places, Fragment.render_append, statementText, String.append_assoc]
  rw [← hall, ← htext]
  exact bind_eq_ok_iff (mapM_eq_ok_iff t.definition_eq_ok_iff places) _ text

end PropertyTable

end IdlBinding
