import IdlBinding.Descriptor
import IdlBinding.Proofs.FaultText
import IdlBinding.Proofs.Records

/-!
# Two routes to a default value

A document with a default value can be read in raw form and made a literal from there, or it can be
read in typed form at once. The two routes accept the same documents and give the same literals.
They also refuse with the same words, but the typed route leaves the words to the reader of the
document, which takes a position at their end for its own (`routes_agree_up_to_positions`).

* `Means` — the raw forms of a default value, one rule for each payload that a tag can have;
* `Refused` — the raw forms that have no meaning, and why;
* `SameContent` — two raw forms that differ only in fields which their tag has no use for.

Every raw form either means one default value or is refused for one cause, and this is what
`interpret` finds (`interpret_eq_ok_iff`, `interpret_eq_error_iff`).
-/

namespace IdlBinding

namespace RawDefault

/-! ## What raw forms mean -/

/-- The raw form stands for the default value. -/
inductive Means (raw : RawDefault) : Default → Prop
  | boolean {value : Bool} (kind : raw.kind = "boolean")
    (payload : raw.value = some (.bool value)) : Means raw (.boolean value)
  | string {text : String} (kind : raw.kind = "string")
    (payload : raw.value = some (.text text)) : Means raw (.string text)
  /-- a number that is given by its text -/
  | numberText {text : String} (kind : raw.kind = "number")
    (payload : raw.value = some (.text text)) : Means raw (.number text)
  | integer {n : Int} (kind : raw.kind = "number") (payload : raw.value = some (.int n)) :
    Means raw (.number (toString n))
  | float {x : Binary64} (kind : raw.kind = "number") (payload : raw.value = some (.float x)) :
    Means raw (.number x.positionalText)
  | null (kind : raw.kind = "null") : Means raw .null
  | notANumber (kind : raw.kind = "NaN") : Means raw .notANumber
  /-- an infinity without a sign is the positive one -/
  | infinity (kind : raw.kind = "Infinity") : Means raw (.infinity (raw.negative.getD false))
  /-- the items of a sequence do not matter -/
  | sequence (kind : raw.kind = "sequence") : Means raw .sequence

/-- The tags of default values. -/
def kinds : List String := ["boolean", "string", "number", "null", "NaN", "Infinity", "sequence"]

/-- The tags that need a payload, and what each calls it. -/
def expectations : List (String × String) :=
  [("boolean", "boolean"), ("string", "string"), ("number", "numeric")]

/-- The raw form stands for no default value. -/
inductive Refused (raw : RawDefault) : DefaultError → Prop
  /-- the tag is unknown -/
  | kind (unknown : raw.kind ∉ kinds) : Refused raw (.unsupportedKind raw.kind)
  /-- the payload is missing or of another type -/
  | payload {expected : String} (known : (raw.kind, expected) ∈ expectations)
    (meaningless : ∀ value, ¬ raw.Means value) : Refused raw (.malformedValue raw.kind expected)

theorem Means.kind_eq {raw : RawDefault} {value : Default} (h : raw.Means value) :
    value.kind = raw.kind := by
  cases h <;> simp [Default.kind, *]

theorem Means.kind_mem {raw : RawDefault} {value : Default} (h : raw.Means value) :
    raw.kind ∈ kinds := by
  rw [← h.kind_eq]
  cases value <;> simp [Default.kind, kinds]

theorem Means.interpret {raw : RawDefault} {value : Default} (h : raw.Means value) :
    raw.interpret = .ok value := by
  cases h <;> simp [RawDefault.interpret, *]

theorem kind_mem_of_expectation {kind expected : String}
    (h : (kind, expected) ∈ expectations) : kind ∈ kinds := by
  simp only [expectations, List.mem_cons, Prod.mk.injEq, List.not_mem_nil, or_false] at h
  rcases h with ⟨rfl, -⟩ | ⟨rfl, -⟩ | ⟨rfl, -⟩ <;> simp [kinds]

theorem expectation_unique {kind expected expected' : String}
    (h : (kind, expected) ∈ expectations) (h' : (kind, expected') ∈ expectations) :
    expected = expected' := by
  simp only [expectations, List.mem_cons, Prod.mk.injEq, List.not_mem_nil, or_false] at h h'
  rcases h with ⟨rfl, rfl⟩ | ⟨rfl, rfl⟩ | ⟨rfl, rfl⟩ <;> simpa [eq_comm] using h'

/-- A raw form that is refused means nothing. -/
theorem Refused.not_means {raw : RawDefault} {cause : DefaultError} (h : raw.Refused cause)
    (value : Default) : ¬ raw.Means value := by
  intro hmeans
  cases h with
  | kind unknown => exact unknown hmeans.kind_mem
  | payload known meaningless => exact meaningless value hmeans

/-- There is one cause to refuse a raw form. -/
theorem Refused.unique {raw : RawDefault} {cause cause' : DefaultError} (h : raw.Refused cause)
    (h' : raw.Refused cause') : cause = cause' := by
  cases h with
  | kind unknown =>
    cases h' with
    | kind _ => rfl
    | payload known _ => exact absurd (kind_mem_of_expectation known) unknown
  | payload known _ =>
    cases h' with
    | kind unknown => exact absurd (kind_mem_of_expectation known) unknown
    | payload known' _ => rw [expectation_unique known known']

/-- **Interpreting** finds the meaning, or else the cause that there is none. -/
theorem interpret_spec (raw : RawDefault) :
    (∃ value, raw.interpret = .ok value ∧ raw.Means value) ∨
      ∃ cause, raw.interpret = .error cause ∧ raw.Refused cause := by
  rw [interpret]
  split
  next hkind =>
    split
    next hpayload => exact .inl ⟨_, rfl, .boolean hkind hpayload⟩
    next hpayload =>
      refine .inr ⟨_, rfl, .payload (by simp [hkind, expectations]) fun value hmeans => ?_⟩
      cases hmeans <;> simp_all
  next hkind =>
    split
    next hpayload => exact .inl ⟨_, rfl, .string hkind hpayload⟩
    next hpayload =>
      refine .inr ⟨_, rfl, .payload (by simp [hkind, expectations]) fun value hmeans => ?_⟩
      cases hmeans <;> simp_all
  next hkind =>
    split
    next hpayload => exact .inl ⟨_, rfl, .numberText hkind hpayload⟩
    next hpayload => exact .inl ⟨_, rfl, .integer hkind hpayload⟩
    next hpayload => exact .inl ⟨_, rfl, .float hkind hpayload⟩
    next htext hint hfloat =>
      refine .inr ⟨_, rfl, .payload (by simp [hkind, expectations]) fun value hmeans => ?_⟩
      cases hmeans <;> simp_all
  next hkind => exact .inl ⟨_, rfl, .null hkind⟩
  next hkind => exact .inl ⟨_, rfl, .notANumber hkind⟩
  next hkind => exact .inl ⟨_, rfl, .infinity hkind⟩
  next hkind => exact .inl ⟨_, rfl, .sequence hkind⟩
  next hboolean hstring hnumber hnull hnan hinfinity hsequence =>
    refine .inr ⟨_, rfl, .kind ?_⟩
    simp only [kinds, List.mem_cons, List.not_mem_nil, or_false, not_or]
    exact ⟨hboolean, hstring, hnumber, hnull, hnan, hinfinity, hsequence⟩

theorem interpret_eq_ok_iff {raw : RawDefault} {value : Default} :
    raw.interpret = .ok value ↔ raw.Means value := by
  refine ⟨fun h => ?_, Means.interpret⟩
  rcases raw.interpret_spec with ⟨value', hok, hmeans⟩ | ⟨cause, herror, -⟩
  · obtain rfl := Except.ok.inj (hok.symm.trans h)
    exact hmeans
  · rw [herror] at h
    cases h

theorem interpret_eq_error_iff {raw : RawDefault} {cause : DefaultError} :
    raw.interpret = .error cause ↔ raw.Refused cause := by
  rcases raw.interpret_spec with ⟨value, hok, hmeans⟩ | ⟨cause', herror, hrefused⟩
  · rw [hok]
    exact ⟨nofun, fun h => absurd hmeans (h.not_means value)⟩
  · rw [herror]
    refine ⟨fun h => ?_, fun h => congrArg _ (hrefused.unique h)⟩
    obtain rfl := Except.error.inj h
    exact hrefused

theorem Means.literal {raw : RawDefault} {value : Default} (h : raw.Means value) :
    raw.literal = .ok value.literal := by
  rw [RawDefault.literal, h.interpret]

theorem Refused.literal {raw : RawDefault} {cause : DefaultError} (h : raw.Refused cause) :
    raw.literal = .error (.ofDefault cause) := by
  rw [RawDefault.literal, interpret_eq_error_iff.mpr h]

/-- The generator has the same words for the errors of default values. -/
theorem message_ofDefault (cause : DefaultError) :
    (Error.ofDefault cause).message = cause.message := by
  cases cause with
  | unsupportedKind kind => rfl
  | malformedValue kind expected => rfl

/-- If the tag is known, then the message does not end in a position, because its last word is the
same for all. -/
theorem Refused.not_endsInPosition {raw : RawDefault} {cause : DefaultError} (h : raw.Refused cause)
    (hkind : raw.kind ∈ kinds) (front : String) (line column : Nat) :
    ¬ Json.EndsInPosition cause.message front line column := by
  intro hends
  cases h with
  | kind unknown => exact unknown hkind
  | @payload expected known meaningless =>
    have hmessage : (DefaultError.malformedValue raw.kind expected).message =
        "default of type " ++ raw.kind ++ " requires a " ++ expected ++ " value" := rfl
    rw [hmessage] at hends
    have hlast {s : String} : (s ++ " value").toList.getLast? = some 'e' := by
      rw [String.toList_append, List.getLast?_append_of_ne_nil _ (by decide)]
      rfl
    exact absurd (hends.isDigit_of_last hlast) (by decide)

/-! ## Fields that do not matter -/

/-- Two raw forms with the same tag. They have the same payload if the tag is one that needs it, and
the same sign if it is that of an infinity. -/
structure SameContent (a b : RawDefault) : Prop where
  /-- the tag -/
  kind : b.kind = a.kind
  /-- the payload of truth values, strings and numbers -/
  value : a.kind ∈ ["boolean", "string", "number"] → b.value = a.value
  /-- the sign of infinities -/
  negative : a.kind = "Infinity" → b.negative = a.negative

theorem SameContent.symm {a b : RawDefault} (h : a.SameContent b) : b.SameContent a :=
  ⟨h.kind.symm, fun hk => (h.value (h.kind ▸ hk)).symm, fun hk => (h.negative (h.kind ▸ hk)).symm⟩

theorem SameContent.means {a b : RawDefault} {value : Default} (h : a.SameContent b)
    (hmeans : a.Means value) : b.Means value := by
  have hvalue (hk : a.kind ∈ ["boolean", "string", "number"]) {payload : Option Scalar}
      (hp : a.value = payload) : b.value = payload := (h.value hk).trans hp
  cases hmeans with
  | boolean kind payload => exact .boolean (h.kind.trans kind) (hvalue (by simp [kind]) payload)
  | string kind payload => exact .string (h.kind.trans kind) (hvalue (by simp [kind]) payload)
  | numberText kind payload =>
    exact .numberText (h.kind.trans kind) (hvalue (by simp [kind]) payload)
  | integer kind payload => exact .integer (h.kind.trans kind) (hvalue (by simp [kind]) payload)
  | float kind payload => exact .float (h.kind.trans kind) (hvalue (by simp [kind]) payload)
  | null kind => exact .null (h.kind.trans kind)
  | notANumber kind => exact .notANumber (h.kind.trans kind)
  | infinity kind => exact h.negative kind ▸ .infinity (h.kind.trans kind)
  | sequence kind => exact .sequence (h.kind.trans kind)

theorem SameContent.refused {a b : RawDefault} {cause : DefaultError} (h : a.SameContent b)
    (hrefused : a.Refused cause) : b.Refused cause := by
  cases hrefused with
  | kind unknown => exact h.kind ▸ .kind (h.kind.symm ▸ unknown)
  | payload known meaningless =>
    exact h.kind ▸ .payload (h.kind.symm ▸ known)
      fun value hmeans => meaningless value (h.symm.means hmeans)

/-- **The other fields do not matter.** -/
theorem SameContent.interpret {a b : RawDefault} (h : a.SameContent b) :
    b.interpret = a.interpret := by
  rcases a.interpret_spec with ⟨value, hok, hmeans⟩ | ⟨cause, herror, hrefused⟩
  · rw [hok, interpret_eq_ok_iff]
    exact h.means hmeans
  · rw [herror, interpret_eq_error_iff]
    exact h.refused hrefused

theorem SameContent.literal {a b : RawDefault} (h : a.SameContent b) : b.literal = a.literal := by
  rw [RawDefault.literal, RawDefault.literal, h.interpret]

end RawDefault

/-! ## Documents -/

namespace Default

/-- A default value in a document is read in raw form and then interpreted. -/
theorem ofJson_eq_ok_iff {depth : Nat} {v : Json.Value} {value : Default} :
    ofJson depth v = .ok value ↔ ∃ raw, RawDefault.ofJson depth v = .ok raw ∧ raw.Means value := by
  rw [ofJson, Json.bind_eq_ok]
  refine exists_congr fun raw => and_congr_right fun _ => ?_
  rw [← RawDefault.interpret_eq_ok_iff]
  rcases raw.interpret with cause | value'
  · simp
  · simp

theorem ofText_eq_ok_iff {text : String} {value : Default} :
    ofText text = .ok value ↔ ∃ raw, RawDefault.ofText text = .ok raw ∧ raw.Means value := by
  simp only [ofText, RawDefault.ofText, Json.Document.decode_eq_ok_iff, ofJson_eq_ok_iff]
  constructor
  · rintro ⟨⟨raw, hraw, hmeans⟩, hcomplete⟩
    exact ⟨raw, ⟨hraw, hcomplete⟩, hmeans⟩
  · rintro ⟨raw, ⟨hraw, hcomplete⟩, hmeans⟩
    exact ⟨⟨raw, hraw, hmeans⟩, hcomplete⟩

section Routes

variable {text : String} {raw : RawDefault} (hraw : RawDefault.ofText text = .ok raw)
include hraw

theorem ofText_eq_ok_iff_means {value : Default} : ofText text = .ok value ↔ raw.Means value := by
  rw [ofText_eq_ok_iff]
  constructor
  · rintro ⟨raw', hraw', hmeans⟩
    obtain rfl := Except.ok.inj (hraw.symm.trans hraw')
    exact hmeans
  · exact fun hmeans => ⟨raw, hraw, hmeans⟩

/-- A raw form that is refused is found before the end of the document. -/
theorem ofText_of_refused {cause : DefaultError} (h : raw.Refused cause) :
    ofText text = .error (.refused (.ofMessage cause.message)) := by
  rw [RawDefault.ofText, Json.Document.decode_eq_ok_iff] at hraw
  rw [ofText, Json.Document.decode, ofJson, hraw.1]
  simp [bind, Except.bind, RawDefault.interpret_eq_error_iff.mpr h]

/-- The typed route ends as the raw form is interpreted. -/
theorem ofText_spec : (∃ value, ofText text = .ok value ∧ raw.Means value) ∨
    ∃ cause, ofText text = .error (.refused (.ofMessage cause.message)) ∧ raw.Refused cause := by
  rcases raw.interpret_spec with ⟨value, -, hmeans⟩ | ⟨cause, -, hrefused⟩
  · exact .inl ⟨value, (ofText_eq_ok_iff_means hraw).mpr hmeans, hmeans⟩
  · exact .inr ⟨cause, ofText_of_refused hraw hrefused, hrefused⟩

end Routes

theorem ofText_congr {text text' : String} {raw raw' : RawDefault}
    (hraw : RawDefault.ofText text = .ok raw) (hraw' : RawDefault.ofText text' = .ok raw')
    (h : raw.SameContent raw') : ofText text' = ofText text := by
  rcases ofText_spec hraw with ⟨value, hok, hmeans⟩ | ⟨cause, herror, hrefused⟩
  · rw [hok, ofText_eq_ok_iff_means hraw']
    exact h.means hmeans
  · rw [herror, ofText_of_refused hraw' (h.refused hrefused)]

/-- **The two routes agree** on every text, up to positions in messages. What cannot be read in raw
form cannot be read at all. If there is a raw form, then the typed route gives a value exactly if
the raw form has a literal, namely what the raw form means, with the same literal and the same tag.
Payload and sign count only for the tags that have a use for them.

Or else both routes refuse, for the same cause. They show the same text if the tag is known, and
also if it is not, unless the message ends in a position that the reader of the document does not
write back as it was. A position in line zero is cut off, and numbers lose their leading zeros. -/
theorem routes_agree_up_to_positions (text : String) :
    (∀ fault, RawDefault.ofText text = .error fault → ∃ fault', ofText text = .error fault') ∧
    ∀ raw, RawDefault.ofText text = .ok raw →
      ((∃ value, ofText text = .ok value) ↔ ∃ expression, raw.literal = .ok expression) ∧
      (∀ value, ofText text = .ok value ↔ raw.Means value) ∧
      (∀ value, ofText text = .ok value →
        raw.literal = .ok value.literal ∧ value.kind = raw.kind) ∧
      (∀ fault, ofText text = .error fault → ∃ cause report error, fault = .refused report ∧
        raw.Refused cause ∧ raw.literal = .error error ∧ error.message = cause.message ∧
        (raw.kind ∈ RawDefault.kinds → report.text = error.message) ∧
        (report.text = error.message ↔ ∀ front line column,
          Json.EndsInPosition error.message front line column →
            line ≠ 0 ∧ error.message = front ++ Json.positionText line column) ∧
        ∀ front line column, Json.EndsInPosition error.message front line column →
          report.text = if line = 0 then front else front ++ Json.positionText line column) ∧
      ∀ text' raw', RawDefault.ofText text' = .ok raw' → raw.SameContent raw' →
        ofText text' = ofText text ∧ raw'.literal = raw.literal := by
  refine ⟨fun fault hfault => ?_, fun raw hraw => ⟨?_, ?_, ?_, ?_, ?_⟩⟩
  · rcases hvalue : ofText text with fault' | value
    · exact ⟨fault', rfl⟩
    · obtain ⟨raw, hraw, -⟩ := ofText_eq_ok_iff.mp hvalue
      exact absurd (hfault.symm.trans hraw) (by simp)
  · rcases ofText_spec hraw with ⟨value, hok, hmeans⟩ | ⟨cause, herror, hrefused⟩
    · exact ⟨fun _ => ⟨_, hmeans.literal⟩, fun _ => ⟨value, hok⟩⟩
    · rw [herror, hrefused.literal]
      simp
  · exact fun value => ofText_eq_ok_iff_means hraw
  · intro value hvalue
    have hmeans := (ofText_eq_ok_iff_means hraw).mp hvalue
    exact ⟨hmeans.literal, hmeans.kind_eq⟩
  · intro fault hfault
    rcases ofText_spec hraw with ⟨value, hok, -⟩ | ⟨cause, herror, hrefused⟩
    · exact absurd (hfault.symm.trans hok) (by simp)
    · obtain rfl := Except.error.inj (herror.symm.trans hfault)
      have hmessage := RawDefault.message_ofDefault cause
      refine ⟨cause, _, _, rfl, hrefused, hrefused.literal, hmessage, fun hkind => ?_, ?_, ?_⟩
      · rw [hmessage]
        exact Json.Report.text_ofMessage_of_not_ends (hrefused.not_endsInPosition hkind)
      · rw [hmessage]
        exact Json.Report.text_ofMessage_eq_iff
      · rw [hmessage]
        exact fun front line column => Json.Report.text_ofMessage_of_ends
  · exact fun text' raw' hraw' hsame => ⟨ofText_congr hraw hraw' hsame, hsame.literal⟩

/-- A document that breaks off, an infinity with and without a payload, and a truth value that is
missing. -/
theorem routes_agree_up_to_positions_infinity_and_boolean :
    (∃ fault, ofText "[\"Infinity\", null, true" = .error fault) ∧
    (RawDefault.literal ⟨"Infinity", none, some true⟩ = .ok (literal (.infinity true)) ∧
      kind (.infinity true) = "Infinity") ∧
    (ofText "[\"Infinity\", [[]], true]" =
        ofText "\x7b\"negative\": true, \"type\": \"Infinity\"\x7d" ∧
      RawDefault.literal ⟨"Infinity", some (.list [.list []]), some true⟩ =
        RawDefault.literal ⟨"Infinity", none, some true⟩) ∧
    ∃ report error, ofText "[\"boolean\", null, true]" = .error (.refused report) ∧
      RawDefault.literal ⟨"boolean", none, some true⟩ = .error error ∧
      report.text = error.message := by
  have hinfinity :=
    (routes_agree_up_to_positions "\x7b\"negative\": true, \"type\": \"Infinity\"\x7d").2
      ⟨"Infinity", none, some true⟩ (by cbv)
  have hboolean := (routes_agree_up_to_positions "[\"boolean\", null, true]").2
    ⟨"boolean", none, some true⟩ (by cbv)
  refine ⟨(routes_agree_up_to_positions "[\"Infinity\", null, true").1 .form (by cbv), ?_, ?_, ?_⟩
  · exact hinfinity.2.2.1 (.infinity true) (by cbv)
  · exact hinfinity.2.2.2.2 _ ⟨"Infinity", some (.list [.list []]), some true⟩ (by cbv)
      ⟨rfl, by simp, fun _ => rfl⟩
  · have hrefused : ofText "[\"boolean\", null, true]" =
        .error (.refused { message := "default of type boolean requires a boolean value" }) := by
      decide +kernel
    obtain ⟨-, report, error, hfault, -, hliteral, -, hknown, -⟩ := hboolean.2.2.2.1 _ hrefused
    exact ⟨report, error, hrefused.trans (congrArg _ hfault), hliteral, hknown (by decide)⟩

/-- A tag that ends in a position of line zero. The generator shows it, and the reader of the
document does not. -/
theorem routes_differ_in_line_zero :
    ∃ report, ofText "\x7b\"type\": \"x at line 0 column 5\"\x7d" = .error (.refused report) ∧
      report.text = "unexpected default type: x" ∧
      RawDefault.ofText "\x7b\"type\": \"x at line 0 column 5\"\x7d" =
        .ok ⟨"x at line 0 column 5", none, none⟩ ∧
      ∃ error, RawDefault.literal ⟨"x at line 0 column 5", none, none⟩ = .error error ∧
        error.message = "unexpected default type: x at line 0 column 5" := by
  refine ⟨⟨"unexpected default type: x", 0, 5⟩, by decide +kernel, rfl, by cbv, ?_⟩
  exact ⟨.unsupportedDefaultKind "x at line 0 column 5", by decide +kernel, by decide +kernel⟩

end Default

end IdlBinding
