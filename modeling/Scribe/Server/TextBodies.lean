import Scribe.Server.ExactTokens

/-! Setting the text of an annotation.

Two writers put a text into the first textual body, and the reader takes the first
body that has a value. The writers leave every other body alone, except that a single
body of another kind is replaced by one of them and kept by the other. The text is
read back exactly when no other body stands in the way.
-/

set_option autoImplicit false

namespace Scribe.Server

open Json

def bodyEntries : Json → List Json
  | .arr bodies => bodies
  | .obj body => [.obj body]
  | _ => []

/-- One textual body has received a text, and the others stand as they did. -/
def ReceivesOne (before after : List Json) (text : String) : Prop :=
  ∃ front received back, after = front ++ received :: back ∧ isTextualEntry received = true ∧
    field received.toObject "value" = .str text ∧
    (before = front ++ back ∨ ∃ old, isTextualEntry old = true ∧ before = front ++ old :: back)

structure TextSet (anno after : Object) (text : String) : Prop where
  reads : extractAnnotationText after = text
  bodies : ReceivesOne (bodyEntries (field anno "body")) (bodyEntries (field after "body")) text
  others : ∀ key, "body" ≠ key → Assoc.get after key = Assoc.get anno key

def withTextBody (anno : Object) (value : String) : Object :=
  Assoc.set anno "body" (textBodyWithValue (field anno "body") (Go.trimSpace value))

/-! ## Other bodies -/

theorem TextWriter.receivesOne {update : Json → Option Json} {fresh : Json} {text : String}
    (writer : TextWriter update text) (textual : isTextualEntry fresh = true)
    (given : field fresh.toObject "value" = .str text) (bodies : List Json) :
    ReceivesOne bodies ((updateFirst update bodies).getD (bodies ++ [fresh])) text := by
  obtain ⟨front, received, back, same, -, isTextual, isValue, before⟩ :=
    writer.received textual given bodies
  refine ⟨front, received, back, same, isTextual, isValue, ?_⟩
  rcases before with ⟨rfl, rfl⟩ | old
  · exact .inl (List.append_nil _).symm
  · exact .inr old

theorem setAnnotationText_trimSpace (anno : Object) (value : String) :
    setAnnotationText anno (Go.trimSpace value) = setAnnotationText anno value := by
  have same : setBody (Go.trimSpace value) = setBody value := by
    funext entry
    cases entry <;> simp only [setBody, Go.trimSpace_trimSpace]
  simp only [setAnnotationText, same, Go.trimSpace_trimSpace]

theorem bodyEntries_replacedBody (value : String) (raw : Json)
    (kept : ∀ body, raw = .obj body → isTextualBody body = true) :
    ReceivesOne (bodyEntries raw) (bodyEntries (replacedBody value raw)) (Go.trimSpace value) := by
  have listed :=
    (setBody_writer value).receivesOne (supplementingBody_textual _) (field_supplementingBody _)
  cases raw with
  | arr bodies =>
    rw [replacedBody_arr]
    exact listed bodies
  | obj body =>
    have here := listed [.obj body]
    have taken : setBody value (.obj body) = _ := if_pos (kept body rfl)
    rw [updateFirst, taken] at here
    rw [replacedBody, taken]
    exact here
  | _ => exact listed []

theorem bodyEntries_textBodyWithValue (text : String) (raw : Json) :
    ReceivesOne (bodyEntries raw) (bodyEntries (textBodyWithValue raw text)) text := by
  have writer := replaceTextualBody_writer text
  have textual : isTextualEntry (.obj (setTextualValue [] text)) = true :=
    isTextualBody_setTextualValue [] text
  have listed := writer.receivesOne textual (field_setTextualValue [] text)
  cases raw with
  | arr bodies =>
    rw [textBodyWithValue_arr]
    exact listed bodies
  | obj body =>
    have here := listed [.obj body]
    simp only [textBodyWithValue]
    cases found : replaceTextualBody text (.obj body) with
    | none =>
      rw [updateFirst, found] at here
      exact here
    | some updated =>
      rw [updateFirst, found] at here
      have textual := (writer.gives found).1
      cases updated with
      | obj object => exact here
      | _ => cases textual
  | _ => exact listed []

/-! ## Reading back -/

/-- A text comes back from an annotation: a single body must be textual, and in a list the other
bodies must not hide the text. -/
def textReturns : Json → String → Bool
  | .obj body, _ => isTextualBody body
  | raw, text => textSettable raw text

theorem textual_of_receivesOne {value text : String} {body : Object}
    (kept : ReceivesOne (bodyEntries (.obj body)) (bodyEntries (replacedBody value (.obj body)))
      text) :
    isTextualBody body = true := by
  cases textual : isTextualBody body with
  | true => rfl
  | false =>
    have skipped : setBody value (.obj body) = none := by simp [setBody, textual]
    rw [replacedBody, skipped, Option.getD_none] at kept
    obtain ⟨front, received, back, after, -, -, before⟩ := kept
    have alone : front = [] ∧ back = [] := by
      cases front with
      | nil => exact ⟨rfl, (List.cons.inj after).2.symm⟩
      | cons first rest => simp [bodyEntries] at after
    rw [alone.1, alone.2] at before
    rcases before with nothing | ⟨old, isText, same⟩
    · cases nothing
    · rw [← (List.cons.inj same).1, isTextualEntry, textual] at isText
      cases isText

theorem textSettable_of_returns {raw : Json} {text : String} (returns : textReturns raw text = true) :
    textSettable raw text = true := by
  cases raw with
  | arr bodies => exact returns
  | _ => rfl

theorem textDerivable_of_returns {raw : Json} {text : String} (trimmed : Go.trimSpace text = text)
    (returns : textReturns raw text = true) : bodyText raw = text ∨ textDerivable raw text = true := by
  by_cases empty : text = ""
  · subst empty
    right
    cases raw with
    | arr bodies =>
      have others : bodyText (.arr (bodies.eraseP isTextualEntry)) = "" := by
        simpa [textReturns, textSettable] using returns
      simp [textDerivable, otherBodies, others]
    | obj body =>
      have textual : isTextualEntry (.obj body) = true := returns
      simp [textDerivable, otherBodies, textual, bodyText]
    | _ => simp [textDerivable, otherBodies, bodyText]
  · cases raw with
    | arr bodies =>
      rw [textReturns, textSettable, if_neg empty, Bool.or_eq_true, decide_eq_true_eq] at returns
      · simpa [textDerivable, trimmed, empty, textLeads, or_comm] using returns
      · intro body same
        cases same
    | obj body =>
      have textual : isTextualEntry (.obj body) = true := returns
      exact .inr (by simp [textDerivable, trimmed, empty, textLeads, textLeadsIn, textual])
    | _ => exact .inr (by simp [textDerivable, trimmed, empty, textLeads])

/-- Both writers set a text, and nothing else, exactly when no other body hides it. -/
theorem set_text_iff (anno : Object) (value : String) :
    TextSet anno (setAnnotationText anno value) (Go.trimSpace value) ∧
      TextSet anno (withTextBody anno value) (Go.trimSpace value) ↔
    textReturns (field anno "body") (Go.trimSpace value) = true := by
  have trimmed := Go.trimSpace_trimSpace value
  have setReads : extractAnnotationText (setAnnotationText anno value) = Go.trimSpace value ↔
      textSettable (field anno "body") (Go.trimSpace value) = true := by
    rw [← setAnnotationText_trimSpace]
    exact extractAnnotationText_setAnnotationText trimmed
  have derivedReads : extractAnnotationText (withTextBody anno value) = Go.trimSpace value ↔
      bodyText (field anno "body") = Go.trimSpace value ∨
        textDerivable (field anno "body") (Go.trimSpace value) = true := by
    rw [← bodyText_textBodyWithValue_iff, trimmed, extractAnnotationText_eq, withTextBody,
      field_set_self]
  have setEntries : bodyEntries (field (setAnnotationText anno value) "body") =
      bodyEntries (replacedBody value (field anno "body")) := by
    rw [setAnnotationText_eq, field_set_self]
  have derivedEntries : bodyEntries (field (withTextBody anno value) "body") =
      bodyEntries (textBodyWithValue (field anno "body") (Go.trimSpace value)) := by
    rw [withTextBody, field_set_self]
  constructor
  -- `setAnnotationText` alone makes the condition necessary.
  · rintro ⟨⟨reads, received, -⟩, -⟩
    rw [setReads] at reads
    rw [setEntries] at received
    generalize field anno "body" = raw at reads received
    cases raw with
    | obj body => exact textual_of_receivesOne received
    | _ => exact reads
  · intro returns
    have kept : ∀ body, field anno "body" = .obj body → isTextualBody body = true := by
      intro body shape
      rw [shape] at returns
      exact returns
    refine ⟨⟨setReads.mpr (textSettable_of_returns returns), ?_, fun key apart =>
      Assoc.get_set_of_ne anno _ apart⟩, derivedReads.mpr (textDerivable_of_returns trimmed
        returns), ?_, fun key apart => Assoc.get_set_of_ne anno _ apart⟩
    · rw [setEntries]
      exact bodyEntries_replacedBody value _ kept
    · rw [derivedEntries]
      exact bodyEntries_textBodyWithValue _ _

def captionedAnno : Object :=
  [("body", .arr [.obj [("type", .str "Image"), ("value", .str "caption")],
    .obj [("type", .str "TextualBody"), ("value", .str "old")]])]

def imageAnno : Object := [("body", .obj [("type", .str "Image"), ("id", .str "image")])]

/-- A value before the transcription hides the text that is set, and an image that stands alone is
dropped by one writer and kept by the other. -/
theorem caption_hides_text :
    extractAnnotationText (setAnnotationText captionedAnno "new") = "caption" ∧
    extractAnnotationText (withTextBody captionedAnno "new") = "caption" ∧
    field (setAnnotationText imageAnno "new") "body" = .arr [supplementingBody "new"] ∧
    bodyEntries (field (withTextBody imageAnno "new") "body") =
      [.obj [("type", .str "Image"), ("id", .str "image")],
        .obj (setTextualValue [] "new")] := by
  decide +kernel

end Scribe.Server
