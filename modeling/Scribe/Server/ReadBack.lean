import Scribe.Iiif.ReadBack
import Scribe.Server.Ownership

/-! What a rewritten annotation reads as.

The server changes an annotation by writing its text into the first textual body
and its box into the spatial selector, and reads both back by a search. A text is
read back unless a body with a value stands before the first textual one; a box is
read back whenever the target still names one rectangle.
-/

set_option autoImplicit false

namespace Scribe.Server

open Iiif List Json Attempt

/-! ## Which properties a reading depends on -/

theorem extractAnnotationText_congr {a b : Object} (same : field a "body" = field b "body") :
    extractAnnotationText a = extractAnnotationText b := by
  simp only [extractAnnotationText, same]

theorem annotationBox_congr {a b : Object} (same : field a "target" = field b "target") :
    annotationBox a = annotationBox b := by
  simp only [annotationBox, extractFragment, same]

theorem annStringValue_congr {a b : Object} {key : String} (same : field a key = field b key) :
    annStringValue a key = annStringValue b key := by
  simp only [annStringValue, same]

theorem isGranularity_congr {a b : Object} (granularity : String)
    (same : field a "textGranularity" = field b "textGranularity") :
    isGranularity a granularity = isGranularity b granularity := by
  simp only [isGranularity, annStringValue_congr same]

theorem extractCanvasURI_congr {a b : Object} (sameOn : field a "on" = field b "on")
    (same : field a "target" = field b "target") : extractCanvasURI a = extractCanvasURI b := by
  simp only [extractCanvasURI, annStringValue_congr sameOn, same]

@[simp] theorem annStringValue_set_self (anno : Object) (key text : String) :
    annStringValue (Assoc.set anno key (.str text)) key = text := by
  simp [annStringValue]

theorem field_setMissing_of_ne (object : Object) {key other : String} (value : Json)
    (apart : key ≠ other) : field (setMissing object key value) other = field object other := by
  unfold setMissing
  split
  · exact field_set_of_ne object value apart
  · rfl

theorem field_updateField_of_ne (object : Object) {key other : String} (update : Json → Option Json)
    (apart : key ≠ other) : field (updateField object key update) other = field object other := by
  unfold updateField
  split
  · exact field_set_of_ne object _ apart
  · rfl

theorem field_eraseIdentity_of_ne (object : Object) {key : String} (notID : "id" ≠ key)
    (notAt : "@id" ≠ key) : field (eraseIdentity object) key = field object key := by
  rw [eraseIdentity, field_erase_of_ne _ notAt, field_erase_of_ne _ notID]

theorem field_updateField_self (object : Object) (key : String) (update : Json → Option Json) :
    field (updateField object key update) key = (update (field object key)).getD
      (field object key) := by
  unfold updateField
  cases update (field object key) with
  | none => rfl
  | some value => simp

/-! ## Texts -/

def entryText (entry : Json) : String := Go.trimSpace (annStringValue entry.toObject "value")

def bodyText : Json → String
  | .obj body => entryText (.obj body)
  | .arr bodies => ((bodies.map entryText).find? (· ≠ "")).getD ""
  | _ => ""

def isTextualEntry : Json → Bool
  | .obj body => isTextualBody body
  | _ => false

def textLeadsIn : List Json → Bool
  | [] => true
  | entry :: rest => isTextualEntry entry || (entryText entry = "" && textLeadsIn rest)

/-- No body before the first textual one has a value. -/
def textLeads : Json → Bool
  | .arr bodies => textLeadsIn bodies
  | .obj body => textLeadsIn [.obj body]
  | _ => true

theorem extractAnnotationText_eq (anno : Object) :
    extractAnnotationText anno = bodyText (field anno "body") := by
  unfold extractAnnotationText bodyText
  cases field anno "body" with
  | arr bodies => rfl
  | obj body => rfl
  | _ => rfl

@[simp] theorem trimSpace_empty : Go.trimSpace "" = "" := by decide
variable {text : String}

theorem entryText_of_field {entry : Json} (value : field entry.toObject "value" = .str text) :
    entryText entry = Go.trimSpace text := by
  simp [entryText, annStringValue, value]

theorem bodyText_cons (entry : Json) (rest : List Json) :
    bodyText (.arr (entry :: rest)) = if entryText entry = "" then bodyText (.arr rest)
      else entryText entry := by
  by_cases empty : entryText entry = ""
  · simp [bodyText, empty]
  · simp [bodyText, empty]

theorem bodyText_singleton (entry : Json) : bodyText (.arr [entry]) = entryText entry := by
  rw [bodyText_cons]
  split
  · rename_i empty
    rw [empty]
    rfl
  · rfl

theorem bodyText_append (front rest : List Json) : bodyText (.arr (front ++ rest)) =
    if bodyText (.arr front) = "" then bodyText (.arr rest) else bodyText (.arr front) := by
  induction front with
  | nil => rfl
  | cons entry front ih =>
    rw [cons_append, bodyText_cons, bodyText_cons, ih]
    by_cases empty : entryText entry = "" <;> simp [empty]

theorem textLeadsIn_append {front : List Json} (others : ∀ entry ∈ front, isTextualEntry entry = false)
    (rest : List Json) : textLeadsIn (front ++ rest) =
      (decide (bodyText (.arr front) = "") && textLeadsIn rest) := by
  induction front with
  | nil => rfl
  | cons entry front ih =>
    obtain ⟨notTextual, later⟩ := forall_mem_cons.mp others
    rw [cons_append, textLeadsIn, ih later, notTextual, bodyText_cons]
    by_cases empty : entryText entry = "" <;> simp [empty]

theorem trimSpace_bodyText (raw : Json) : Go.trimSpace (bodyText raw) = bodyText raw := by
  cases raw with
  | obj body => exact Go.trimSpace_trimSpace _
  | arr bodies =>
    induction bodies with
    | nil => exact trimSpace_empty
    | cons entry rest ih =>
      rw [bodyText_cons]
      split
      · exact ih
      · exact Go.trimSpace_trimSpace _
  | _ => exact trimSpace_empty

/-! ## Writers of texts -/

/-- A writer takes the textual bodies and gives them a value. -/
structure TextWriter (update : Json → Option Json) (value : String) : Prop where
  takes : ∀ entry, (update entry).isSome = isTextualEntry entry
  gives : ∀ {entry updated}, update entry = some updated →
    isTextualEntry updated = true ∧ field updated.toObject "value" = .str value

def onTextual (write : Object → Object) : Json → Option Json
  | .obj body => if isTextualBody body then some (.obj (write body)) else none
  | _ => none

theorem onTextual_writer {write : Object → Object} {value : String}
    (textual : ∀ body, isTextualBody body = true → isTextualBody (write body) = true)
    (given : ∀ body, field (write body) "value" = .str value) :
    TextWriter (onTextual write) value := by
  constructor
  · intro entry
    cases entry with
    | obj body =>
      rw [onTextual, isTextualEntry]
      cases isTextualBody body <;> rfl
    | _ => rfl
  · intro entry updated done
    cases entry with
    | obj body =>
      rw [onTextual] at done
      split at done
      · rename_i isTextual
        cases done
        exact ⟨textual body isTextual, given body⟩
      · cases done
    | _ => cases done

theorem setBody_writer (text : String) : TextWriter (setBody text) (Go.trimSpace text) := by
  have same : setBody text = onTextual fun body =>
      Assoc.set body "value" (.str (Go.trimSpace text)) := by
    funext entry
    cases entry <;> rfl
  refine onTextual_writer (fun body textual => ?_) fun body => field_set_self body _ _
  rwa [isTextualBody, annStringValue_congr (field_set_of_ne _ _ (by decide))]

theorem field_setTextualValue (body : Object) (text : String) :
    field (setTextualValue body text) "value" = .str text := by
  rw [setTextualValue, field_setMissing_of_ne _ _ (by decide),
    field_setMissing_of_ne _ _ (by decide), field_set_self]

theorem isTextualBody_setTextualValue (body : Object) (text : String) :
    isTextualBody (setTextualValue body text) = true := by
  have type : field (setTextualValue body text) "type" = .str "TextualBody" := by
    rw [setTextualValue, field_setMissing_of_ne _ _ (by decide),
      field_setMissing_of_ne _ _ (by decide), field_set_of_ne _ _ (by decide), field_set_self]
  rw [isTextualBody, annStringValue, type]
  decide

theorem replaceTextualBody_writer (text : String) : TextWriter (replaceTextualBody text) text := by
  have same : replaceTextualBody text = onTextual (setTextualValue · text) := by
    funext entry
    cases entry <;> rfl
  exact onTextual_writer (fun body _ => isTextualBody_setTextualValue body text) fun body =>
    field_setTextualValue body text

section
variable {update : Json → Option Json} {fresh : Json} {text : String} (writer : TextWriter update text)
include writer

theorem TextWriter.bodyText {entry updated : Json} (done : update entry = some updated) :
    bodyText updated = Go.trimSpace text := by
  obtain ⟨textual, given⟩ := writer.gives done
  cases updated with
  | obj body => exact entryText_of_field given
  | _ => cases textual

variable (textual : isTextualEntry fresh = true) (given : field fresh.toObject "value" = .str text)
include textual given

/-- One body has received the text: the first textual one, or a new one behind the others. -/
theorem TextWriter.received (bodies : List Json) : ∃ front received back,
    (updateFirst update bodies).getD (bodies ++ [fresh]) = front ++ received :: back ∧
    (∀ entry ∈ front, isTextualEntry entry = false) ∧ isTextualEntry received = true ∧
    field received.toObject "value" = .str text ∧
    (bodies = front ∧ back = [] ∨ ∃ old, isTextualEntry old = true ∧
      bodies = front ++ old :: back) := by
  induction bodies with
  | nil => exact ⟨[], fresh, [], rfl, by simp, textual, given, .inl ⟨rfl, rfl⟩⟩
  | cons entry rest ih =>
    have taken := writer.takes entry
    cases here : update entry with
    | some updated =>
      rw [here] at taken
      obtain ⟨isTextual, isValue⟩ := writer.gives here
      exact ⟨[], updated, rest,
        by simp [updateFirst, here], by simp, isTextual, isValue, .inr ⟨entry, taken.symm, rfl⟩⟩
    | none =>
      rw [here] at taken
      obtain ⟨front, received, back, same, others, isTextual, isValue, before⟩ := ih
      refine ⟨entry :: front, received, back, ?_, forall_mem_cons.mpr ⟨taken.symm, others⟩,
        isTextual, isValue, ?_⟩
      · refine Eq.trans ?_ (congrArg (entry :: ·) same)
        rw [updateFirst, here]
        cases updateFirst update rest <;> rfl
      · rcases before with ⟨rfl, rfl⟩ | ⟨old, isOld, rfl⟩
        · exact .inl ⟨rfl, rfl⟩
        · exact .inr ⟨old, isOld, rfl⟩

theorem TextWriter.leads (bodies : List Json) :
    textLeadsIn ((updateFirst update bodies).getD (bodies ++ [fresh])) = textLeadsIn bodies := by
  obtain ⟨front, received, back, same, others, isTextual, -, before⟩ :=
    writer.received textual given bodies
  rw [same, textLeadsIn_append others]
  rcases before with ⟨rfl, rfl⟩ | ⟨old, isOld, rfl⟩
  · simpa [textLeadsIn, isTextual] using (textLeadsIn_append others []).symm
  · rw [textLeadsIn_append others]
    simp [textLeadsIn, isTextual, isOld]

theorem TextWriter.reads (filled : Go.trimSpace text ≠ "") (bodies : List Json) :
    Server.bodyText (.arr ((updateFirst update bodies).getD (bodies ++ [fresh]))) =
      if textLeadsIn bodies then Go.trimSpace text else Server.bodyText (.arr bodies) := by
  obtain ⟨front, received, back, same, others, -, isValue, before⟩ :=
    writer.received textual given bodies
  rw [same, bodyText_append, bodyText_cons, entryText_of_field isValue, if_neg filled]
  rcases before with ⟨rfl, rfl⟩ | ⟨old, isOld, rfl⟩
  · have leads := textLeadsIn_append others []
    by_cases empty : Server.bodyText (.arr bodies) = "" <;> simp_all [textLeadsIn]
  · rw [textLeadsIn_append others, bodyText_append]
    by_cases empty : Server.bodyText (.arr front) = "" <;> simp [textLeadsIn, isOld, empty]

theorem TextWriter.reads_empty (empty : Go.trimSpace text = "") (bodies : List Json) :
    Server.bodyText (.arr ((updateFirst update bodies).getD (bodies ++ [fresh]))) =
      Server.bodyText (.arr (bodies.eraseP isTextualEntry)) := by
  obtain ⟨front, received, back, same, others, -, isValue, before⟩ :=
    writer.received textual given bodies
  have skips : ∀ entry ∈ front, ¬ isTextualEntry entry = true := fun entry member =>
    by simp [others entry member]
  rw [same, bodyText_append, bodyText_cons, entryText_of_field isValue, if_pos empty,
    ← bodyText_append]
  rcases before with ⟨rfl, rfl⟩ | ⟨old, isOld, rfl⟩
  · rw [append_nil, eraseP_of_forall_not skips]
  · rw [eraseP_append_right _ skips, eraseP_cons_of_pos isOld]

end

theorem textBodyWithValue_arr (bodies : List Json) (text : String) :
    textBodyWithValue (.arr bodies) text =
    .arr ((updateFirst (replaceTextualBody text) bodies).getD
      (bodies ++ [.obj (setTextualValue [] text)])) := by
  simp only [textBodyWithValue]
  cases updateFirst (replaceTextualBody text) bodies <;> rfl

theorem bodyText_textBodyWithValue (raw : Json) (trimmed : Go.trimSpace text = text)
    (filled : text ≠ "") :
    bodyText (textBodyWithValue raw text) = if textLeads raw then text else bodyText raw := by
  have writer := replaceTextualBody_writer text
  have textual : isTextualEntry (.obj (setTextualValue [] text)) = true :=
    isTextualBody_setTextualValue [] text
  have given : field (Json.obj (setTextualValue [] text)).toObject "value" = .str text :=
    field_setTextualValue [] text
  have added : entryText (.obj (setTextualValue [] text)) = text :=
    (entryText_of_field given).trans trimmed
  cases raw with
  | arr bodies =>
    have listed := writer.reads textual given (by rwa [trimmed]) bodies
    rw [trimmed] at listed
    rw [textBodyWithValue_arr]
    exact listed
  | obj body =>
    have taken := writer.takes (.obj body)
    simp only [textBodyWithValue, textLeads, textLeadsIn]
    cases here : replaceTextualBody text (.obj body) with
    | some updated =>
      rw [here] at taken
      simp [writer.bodyText here, trimmed, ← taken]
    | none =>
      rw [here] at taken
      rw [Option.getD_none, bodyText_cons, bodyText_cons]
      by_cases empty : entryText (.obj body) = ""
      · simp [empty, added, filled, ← taken]
      · simp [empty, ← taken, bodyText]
  | _ => simp [textBodyWithValue, textLeads, bodyText, added, filled]

/-- Whether a text set in place is read back: a body that is not a list always gives it
back, an empty text needs the other bodies of a list to be empty, and any other text
must not stand behind a body with another value. -/
def textSettable (raw : Json) (text : String) : Bool :=
  match raw with
  | .arr bodies =>
      if text = "" then bodyText (.arr (bodies.eraseP isTextualEntry)) = ""
      else textLeadsIn bodies || bodyText (.arr bodies) = text
  | _ => true

def replacedBody (value : String) : Json → Json
  | .arr bodies => match updateFirst (setBody value) bodies with
      | some bodies => .arr bodies
      | none => .arr (bodies ++ [supplementingBody (Go.trimSpace value)])
  | .obj body => (setBody value (.obj body)).getD (.arr [supplementingBody (Go.trimSpace value)])
  | _ => .arr [supplementingBody (Go.trimSpace value)]

theorem setAnnotationText_eq (anno : Object) (value : String) :
    setAnnotationText anno value = Assoc.set anno "body" (replacedBody value (field anno "body")) :=
  rfl

theorem replacedBody_arr (value : String) (bodies : List Json) : replacedBody value (.arr bodies) =
    .arr ((updateFirst (setBody value) bodies).getD
      (bodies ++ [supplementingBody (Go.trimSpace value)])) := by
  rw [replacedBody]
  cases updateFirst (setBody value) bodies <;> rfl

theorem supplementingBody_textual (text : String) :
    isTextualEntry (supplementingBody text) = true := by
  have kind : annStringValue (supplementingBody text).toObject "type" = "TextualBody" := by
    simp [supplementingBody, annStringValue, field, Assoc.get]
  change isTextualBody (supplementingBody text).toObject = true
  rw [isTextualBody, kind]
  decide

theorem field_supplementingBody (text : String) :
    field (supplementingBody text).toObject "value" = .str text := by
  simp [supplementingBody, field, Assoc.get]

variable {anno : Object}

theorem extractAnnotationText_replaced (anno : Object) (text : String) :
    extractAnnotationText (setAnnotationText anno text) =
      bodyText (replacedBody text (field anno "body")) := by
  rw [extractAnnotationText_eq, setAnnotationText_eq, field_set_self]

theorem bodyText_replacedBody_arr (trimmed : Go.trimSpace text = text) (filled : text ≠ "")
    (bodies : List Json) :
    bodyText (replacedBody text (.arr bodies)) = if textLeadsIn bodies then text
      else bodyText (.arr bodies) := by
  have listed := (setBody_writer text).reads (supplementingBody_textual _) (field_supplementingBody _)
  rw [Go.trimSpace_trimSpace, trimmed] at listed
  rw [replacedBody_arr, trimmed, listed filled]

theorem bodyText_replacedBody_alone {raw : Json} (alone : ∀ bodies, raw ≠ .arr bodies) :
    bodyText (replacedBody text raw) = Go.trimSpace text := by
  have added : entryText (supplementingBody (Go.trimSpace text)) = Go.trimSpace text :=
    (entryText_of_field (field_supplementingBody _)).trans (Go.trimSpace_trimSpace text)
  cases raw with
  | arr bodies => exact absurd rfl (alone bodies)
  | obj body =>
    rw [replacedBody]
    cases here : setBody text (.obj body) with
    | none => rw [Option.getD_none, bodyText_singleton, added]
    | some updated => rw [Option.getD_some, (setBody_writer text).bodyText here,
      Go.trimSpace_trimSpace]
  | _ => rw [replacedBody, bodyText_singleton, added] <;> simp

/-- A text set in place is read back exactly when no other body covers it. -/
theorem extractAnnotationText_setAnnotationText (trimmed : Go.trimSpace text = text) :
    extractAnnotationText (setAnnotationText anno text) = text ↔
      textSettable (field anno "body") text = true := by
  rw [extractAnnotationText_replaced]
  cases shape : field anno "body" with
  | arr bodies =>
    by_cases empty : text = ""
    · have listed :=
        (setBody_writer text).reads_empty (supplementingBody_textual _) (field_supplementingBody _)
      rw [replacedBody_arr, listed (by simp [empty])]
      simp [textSettable, empty]
    · rw [bodyText_replacedBody_arr trimmed empty]
      cases leads : textLeadsIn bodies <;> simp [textSettable, empty, leads]
  | _ => rw [bodyText_replacedBody_alone (by simp)]; simp [textSettable, trimmed]

theorem extractAnnotationText_setAnnotationText_eq (anno : Object) (trimmed : Go.trimSpace text = text)
    (filled : text ≠ "") :
    extractAnnotationText (setAnnotationText anno text) =
      if textSettable (field anno "body") text then text else extractAnnotationText anno := by
  split
  · rename_i settable
    exact (extractAnnotationText_setAnnotationText trimmed).mpr settable
  · rename_i covered
    rw [extractAnnotationText_replaced, extractAnnotationText_eq]
    cases shape : field anno "body" with
    | arr bodies =>
      simp only [shape, textSettable, filled, if_false, Bool.or_eq_true, not_or] at covered
      rw [bodyText_replacedBody_arr trimmed filled, if_neg covered.1]
    | _ => simp [shape, textSettable] at covered

/-! ## Setting a text again -/

theorem setBody_received {entry : Json} (textual : isTextualEntry entry = true)
    (given : field entry.toObject "value" = .str (Go.trimSpace text)) :
    setBody text entry = some entry := by
  cases entry with
  | obj body =>
    rw [toObject_obj] at given
    rw [setBody, if_pos (show isTextualBody body = true from textual),
      Assoc.set_of_get (get_of_field given (by simp))]
  | _ => cases textual

theorem updateFirst_again {update : Json → Option Json} {front back : List Json} {received : Json}
    (others : ∀ entry ∈ front, update entry = none) (again : update received = some received) :
    updateFirst update (front ++ received :: back) = some (front ++ received :: back) := by
  induction front with
  | nil => simp [updateFirst, again]
  | cons entry front ih =>
    obtain ⟨skipped, later⟩ := forall_mem_cons.mp others
    simp [updateFirst, skipped, ih later]

theorem replacedBody_again (text : String) (raw : Json) :
    replacedBody text (replacedBody text raw) = replacedBody text raw := by
  have writer := setBody_writer text
  have added : setBody text (supplementingBody (Go.trimSpace text)) = _ :=
    setBody_received (supplementingBody_textual _) (field_supplementingBody _)
  cases raw with
  | arr bodies =>
    obtain ⟨front, received, back, same, others, textual, given, -⟩ :=
      writer.received (supplementingBody_textual _) (field_supplementingBody _) bodies
    have skipped : ∀ entry ∈ front, setBody text entry = none := by
      intro entry member
      rw [← Option.isNone_iff_eq_none, ← Option.not_isSome, writer.takes, others entry member]
      rfl
    rw [replacedBody_arr, same, replacedBody_arr,
      updateFirst_again skipped (setBody_received textual given)]
    rfl
  | obj body =>
    cases here : setBody text (.obj body) with
    | none => simp [replacedBody, here, updateFirst, added]
    | some updated =>
      obtain ⟨textual, given⟩ := writer.gives here
      cases updated with
      | obj object => simp [replacedBody, here, setBody_received textual given]
      | _ => cases textual
  | _ => simp [replacedBody, updateFirst, added]

theorem setAnnotationText_again (anno : Object) (text : String) :
    setAnnotationText (setAnnotationText anno text) text = setAnnotationText anno text := by
  rw [setAnnotationText_eq, setAnnotationText_eq anno text, field_set_self, Assoc.set_set,
    replacedBody_again]

/-- No body before the place where a text is set has a value. -/
def textSetFirst : Json → Bool
  | .arr bodies => textLeadsIn bodies
  | _ => true

theorem textLeads_setAnnotationText (anno : Object) (text : String) :
    textLeads (field (setAnnotationText anno text) "body") = textSetFirst (field anno "body") := by
  have added := supplementingBody_textual (Go.trimSpace text)
  rw [setAnnotationText_eq, field_set_self]
  cases field anno "body" with
  | arr bodies =>
    rw [replacedBody_arr]
    exact (setBody_writer text).leads added (field_supplementingBody _) bodies
  | obj body =>
    cases here : setBody text (.obj body) with
    | none => simp [replacedBody, here, textLeads, textLeadsIn, added, textSetFirst]
    | some updated =>
      have still := ((setBody_writer text).gives here).1
      cases updated with
      | obj object => simp [replacedBody, here, textLeads, textLeadsIn, still, textSetFirst]
      | _ => cases still
  | _ => simp [replacedBody, textLeads, textLeadsIn, added, textSetFirst]

theorem extractAnnotationText_setAnnotationText_first (anno : Object)
    (trimmed : Go.trimSpace text = text) (filled : text ≠ "") :
    extractAnnotationText (setAnnotationText anno text) =
      if textSetFirst (field anno "body") then text else extractAnnotationText anno := by
  rw [extractAnnotationText_replaced, extractAnnotationText_eq]
  cases field anno "body" with
  | arr bodies => exact bodyText_replacedBody_arr trimmed filled bodies
  | _ => rw [bodyText_replacedBody_alone (by simp), trimmed]; rfl

mutual
theorem entryText_cleared {entry cleared : Json}
    (done : clearFirstTextualBodyIdentity entry = some cleared) :
    entryText cleared = entryText entry := by
  cases entry with
  | obj body =>
    simp only [clearFirstTextualBodyIdentity] at done
    split at done
    · cases done
      simp only [entryText, Json.toObject_obj]
      rw [annStringValue_congr (field_eraseIdentity_of_ne body (by decide) (by decide))]
    · cases done
  | arr entries =>
    simp only [clearFirstTextualBodyIdentity, Option.map_eq_some_iff] at done
    obtain ⟨entries', _, rfl⟩ := done
    rfl
  | _ => cases done

theorem entryTexts_cleared {entries cleared : List Json}
    (done : clearFirstInBodies entries = some cleared) :
    cleared.map entryText = entries.map entryText := by
  cases entries with
  | nil => cases done
  | cons entry rest =>
    simp only [clearFirstInBodies] at done
    split at done
    · rename_i cleared' here
      cases done
      simp [entryText_cleared here]
    · obtain ⟨rest', below, rfl⟩ := Option.map_eq_some_iff.mp done
      simp [entryTexts_cleared below]
end

theorem bodyText_cleared {raw cleared : Json}
    (done : clearFirstTextualBodyIdentity raw = some cleared) :
    bodyText cleared = bodyText raw := by
  cases raw with
  | obj body =>
    have same := entryText_cleared done
    simp only [clearFirstTextualBodyIdentity] at done
    split at done
    · cases done
      exact same
    · cases done
  | arr entries =>
    simp only [clearFirstTextualBodyIdentity, Option.map_eq_some_iff] at done
    obtain ⟨entries', below, rfl⟩ := done
    simp only [bodyText, entryTexts_cleared below]
  | _ => cases done

theorem extractAnnotationText_clearBody (anno : Object) :
    extractAnnotationText (updateField anno "body" clearFirstTextualBodyIdentity) =
      extractAnnotationText anno := by
  rw [extractAnnotationText_eq, extractAnnotationText_eq, field_updateField_self]
  cases here : clearFirstTextualBodyIdentity (field anno "body") with
  | none => rfl
  | some cleared => exact bodyText_cleared here

/-! ## Boxes -/

/-- A box with an inside, within the processing limits. -/
structure Box.Valid (box : Box) : Prop where
  wide : box.x1 < box.x2
  tall : box.y1 < box.y2
  right : box.x2 ≤ maxPixelCoordinate
  bottom : box.y2 ≤ maxPixelCoordinate

theorem Box.valid_of_parsed {fragment : String} {box : Box}
    (parsed : parseXYWH fragment = .ok box) : box.Valid :=
  let bounds := parseXYWH_bounds parsed
  ⟨bounds.1, bounds.2.1, bounds.2.2.1, bounds.2.2.2⟩

theorem toList_repr (n : Nat) : (Nat.repr n).toList = Number.decimal n := by
  simp [Nat.repr, Number.decimal]

theorem repr_isDigit {n : Nat} {c : Char} (member : c ∈ (Nat.repr n).toList) : c.isDigit = true := by
  rw [toList_repr] at member
  exact Number.decimal_isDigit member

theorem repr_ne_empty (n : Nat) : Nat.repr n ≠ "" := by
  intro empty
  have chars := congrArg String.toList empty
  rw [toList_repr] at chars
  exact Number.decimal_ne_nil n (by simpa using chars)

theorem isPlain_formatXYWH (box : Box) : IsPlainXYWH (formatXYWH box) := by
  have listed : ∀ c ∈ (formatXYWH box).toList, c.isDigit = true ∨ c = ',' := by
    intro c member
    simp only [formatXYWH, String.toList_intercalate, map_cons, map_nil, intercalate_cons_cons,
      intercalate_singleton, mem_append] at member
    have comma : ∀ c ∈ (",").toList, c = ',' := by simp
    rcases member with (first | sep) | (second | sep) | (third | sep) | fourth
    · exact .inl (repr_isDigit first)
    · exact .inr (comma c sep)
    · exact .inl (repr_isDigit second)
    · exact .inr (comma c sep)
    · exact .inl (repr_isDigit third)
    · exact .inr (comma c sep)
    · exact .inl (repr_isDigit fourth)
  refine ⟨?_, listed⟩
  intro empty
  have chars := congrArg String.toList empty
  simp [formatXYWH] at chars

theorem split_formatXYWH (box : Box) :
    Go.split (formatXYWH box) ',' = [Nat.repr box.x1, Nat.repr box.y1,
      Nat.repr (max 1 (box.x2 - box.x1)), Nat.repr (max 1 (box.y2 - box.y1))] := by
  have free : ∀ n, ',' ∉ (Nat.repr n).toList := by
    intro n member
    exact absurd (repr_isDigit member) (by decide)
  have comma : (",").toList = [','] := by decide
  rw [Go.split, formatXYWH, String.toList_intercalate, comma, splitOn_intercalate, map_map,
    String.ofList_comp_toList, map_id]
  · intro chars member
    obtain ⟨text, inside, rfl⟩ := mem_map.mp member
    simp only [mem_cons, not_mem_nil, or_false] at inside
    rcases inside with rfl | rfl | rfl | rfl <;> exact free _
  · simp

theorem hasPrefix_digits {start : String} {c d : Char} (first : text.toList.head? = some c)
    (second : start.toList.head? = some d) (apart : d ≠ c) : Go.hasPrefix text start = false := by
  unfold Go.hasPrefix
  cases chars : text.toList with
  | nil => simp [chars] at first
  | cons c' rest =>
    cases starts : start.toList with
    | nil => simp [starts] at second
    | cons d' rest' =>
      simp only [chars, starts, head?_cons, Option.some.injEq] at first second
      subst first second
      simp [List.isPrefixOf, apart]

theorem head_formatXYWH (box : Box) : ∃ c, (formatXYWH box).toList.head? = some c ∧
      c.isDigit = true := by
  have filled : (Nat.repr box.x1).toList ≠ [] := by simp
  have chars : (formatXYWH box).toList.head? = (Nat.repr box.x1).toList.head? := by
    rw [formatXYWH, String.toList_intercalate, map_cons, map_cons, intercalate_cons_cons,
      append_assoc, head?_append_of_ne_nil _ filled]
  cases digits : (Nat.repr box.x1).toList with
  | nil => exact absurd digits filled
  | cons c rest =>
    refine ⟨c,
      by rw [chars, digits]; rfl, repr_isDigit (n := box.x1) (by rw [digits]; exact mem_cons_self)⟩

theorem readCoordinate {n : Nat} (within : n ≤ maxPixelCoordinate) :
    (Number.readFloat (Go.trimSpace (Nat.repr n)).toList).bind
      (Number.roundedBelow maxPixelCoordinate) = some n := by
  have isField : Text.IsField Text.unicodeSpace (Nat.repr n) :=
    ⟨repr_ne_empty n, fun c member => unicodeSpace_digit (repr_isDigit member)⟩
  have small : n < 2 ^ 32 := lt_of_le_of_lt within (by decide)
  rw [Go.trimSpace_of_isField isField, toList_repr, Number.readFloat_decimal, Option.bind_some]
  exact Number.roundedBelow_integer within small

theorem parseRoundedXYWH_written {box : Box} (valid : box.Valid) {value : String}
    (written : IsWritten (formatXYWH box) value) :
    parseRoundedXYWH value = .ok [box.x1, box.y1, box.x2 - box.x1, box.y2 - box.y1] := by
  have plain := isPlain_formatXYWH box
  obtain ⟨c, first, digit⟩ := head_formatXYWH box
  have notUnit : Go.hasPrefix (formatXYWH box) "pixel:" = false :=
    hasPrefix_digits first (d := 'p') (by decide) (by rintro rfl; exact absurd digit (by decide))
  have notPercent : Go.hasPrefix (formatXYWH box) "percent:" = false :=
    hasPrefix_digits first (d := 'p') (by decide) (by rintro rfl; exact absurd digit (by decide))
  have trimmed := Go.trimSpace_of_isField (written.isField plain)
  have trimmedBox := Go.trimSpace_of_isField plain.isField
  have fragment : (if Go.hasPrefix value "pixel:" then Go.trimSpace (Go.trimPrefix value "pixel:")
    else value) =
      formatXYWH box := by
    rcases written with rfl | rfl
    · simp [notUnit]
    · have unit : Go.hasPrefix ("pixel:" ++ formatXYWH box) "pixel:" = true := by
        simp [Go.hasPrefix, String.toList_append]
      have rest : Go.trimPrefix ("pixel:" ++ formatXYWH box) "pixel:" = formatXYWH box := by
        simp [Go.trimPrefix, unit, String.toList_append]
      simp [unit, rest, trimmedBox]
  have wide := valid.wide
  have tall := valid.tall
  have right := valid.right
  have bottom := valid.bottom
  unfold parseRoundedXYWH
  simp only [trimmed, fragment, notPercent, Bool.false_eq_true, if_false]
  rw [split_formatXYWH]
  have width : max 1 (box.x2 - box.x1) = box.x2 - box.x1 := by omega
  have height : max 1 (box.y2 - box.y1) = box.y2 - box.y1 := by omega
  rw [width, height]
  simp only [length_cons, length_nil, Nat.reduceAdd, ne_eq, not_true_eq_false, if_false]
  simp only [bind, Except.bind, pure, Except.pure, mapM_cons, mapM_nil]
  rw [readCoordinate (by omega), readCoordinate (by omega), readCoordinate (by omega),
    readCoordinate (by omega)]

theorem parseXYWH_written {box : Box} (valid : box.Valid) {value : String}
    (written : IsWritten (formatXYWH box) value) : parseXYWH value = .ok box := by
  have wide := valid.wide
  have tall := valid.tall
  have right := valid.right
  have bottom := valid.bottom
  have inside : ¬ (box.x2 - box.x1 = 0 ∨ box.y2 - box.y1 = 0 ∨
      box.x1 + (box.x2 - box.x1) > maxPixelCoordinate ∨
      box.y1 + (box.y2 - box.y1) > maxPixelCoordinate) := by omega
  unfold parseXYWH
  simp only [parseRoundedXYWH_written valid written, bind, Except.bind, inside, if_false,
    pure, Except.pure]
  congr 2 <;> omega

/-! ## Rewritten targets -/

theorem selectorRectangles_congr {a b : Object} (sameType : field a "type" = field b "type")
    (sameValue : field a "value" = field b "value") :
    selectorRectangles (.obj a) = selectorRectangles (.obj b) := by
  simp only [selectorRectangles, sameType, sameValue]

variable {ext : Externals}

theorem selectorRectangles_mapSvg {old box : Box} {selector mapped : Json}
    (done : mapSvgSelector ext old box selector = .ok mapped) :
    selectorRectangles mapped = selectorRectangles selector := by
  cases selector with
  | obj selector =>
    simp only [mapSvgSelector] at done
    split at done
    · rename_i isSvg
      obtain ⟨points, _, same⟩ := bind_ok_iff.mp done
      rw [← pure_ok_iff.mp same]
      have notSpatial : Go.equalFold (Go.trimSpace (stringValue (.str "SvgSelector")))
          fragmentSelectorType = false := by
        decide
      rw [selectorRectangles, selectorRectangles, field_set_of_ne _ _ (by decide), isSvg]
      simp [notSpatial]
    · rw [← pure_ok_iff.mp done]
  | _ => rw [← pure_ok_iff.mp done]

theorem selectorListRectangles_mapSvg {old box : Box} {selectors mapped : List Json}
    (done : selectors.mapM (mapSvgSelector ext old box) = .ok mapped) :
    selectorListRectangles mapped = selectorListRectangles selectors := by
  have pairs := mapM_ok_iff.mp done
  clear done
  induction pairs with
  | nil => rfl
  | cons first rest ih => rw [selectorListRectangles, selectorListRectangles,
    selectorRectangles_mapSvg first, ih]

theorem targetWithFragment_has {raw : Json} {canvasURI : String} {box : Box} {target : Object}
    (done : targetWithFragment ext raw canvasURI box = .ok target) :
    TargetHas target (Go.trimSpace canvasURI) (formatXYWH box) := by
  have plain := isPlain_formatXYWH box
  have apart : ("selector" : String) ≠ "source" := by decide
  unfold targetWithFragment at done
  cases replaced : replaceTargetPixelXYWH ext raw canvasURI (formatXYWH box) with
  | error message => simp [replaced, bind, Except.bind, throw, throwThe, MonadExceptOf.throw] at done
  | ok first =>
    have has := replaceTargetPixelXYWH_has plain replaced
    -- Outlines are mapped after the rectangle is written and are no rectangles themselves.
    have keep : ∀ selector, selectorRectangles selector = selectorRectangles (field first "selector") →
        TargetHas (Assoc.set first "selector" selector) (Go.trimSpace canvasURI) (formatXYWH box) := by
      intro selector same
      refine ⟨?_, ?_⟩
      · rw [field_set_of_ne _ _ apart]
        exact has.source
      · rw [field_set_self]
        intro rectangles read
        exact has.rectangle rectangles (by rw [← same]; exact read)
    simp only [replaced, pure_bind] at done
    cases parsed : annotationBox [("target", raw)] with
    | error message =>
      simp only [parsed] at done
      rw [← pure_ok_iff.mp done]
      exact has
    | ok old =>
      simp only [parsed] at done
      cases shape : field first "selector" with
      | arr selectors =>
        simp only [shape] at done
        obtain ⟨mapped, made, same⟩ := bind_ok_iff.mp done
        rw [← pure_ok_iff.mp same]
        apply keep
        rw [shape, selectorRectangles, selectorRectangles, selectorListRectangles_mapSvg made]
      | obj selector =>
        simp only [shape] at done
        obtain ⟨mapped, made, same⟩ := bind_ok_iff.mp done
        rw [← pure_ok_iff.mp same]
        apply keep
        rw [shape, selectorRectangles_mapSvg made]
      | _ =>
        simp only [shape] at done
        rw [← pure_ok_iff.mp done]
        exact has

mutual
theorem selectorRectangles_cleared {selector cleared : Json}
    (done : clearFirstFragmentIdentity selector = some cleared) :
    selectorRectangles cleared = selectorRectangles selector := by
  cases selector with
  | obj selector =>
    simp only [clearFirstFragmentIdentity] at done
    split at done
    · split at done
      · cases done
        exact selectorRectangles_congr (field_eraseIdentity_of_ne selector (by decide) (by decide))
          (field_eraseIdentity_of_ne selector (by decide) (by decide))
      · cases done
    · cases done
  | arr entries =>
    simp only [clearFirstFragmentIdentity, Option.map_eq_some_iff] at done
    obtain ⟨entries', below, rfl⟩ := done
    rw [selectorRectangles, selectorRectangles, selectorListRectangles_cleared below]
  | _ => cases done

theorem selectorListRectangles_cleared {entries cleared : List Json}
    (done : clearFirstInSelectors entries = some cleared) :
    selectorListRectangles cleared = selectorListRectangles entries := by
  cases entries with
  | nil => cases done
  | cons entry rest =>
    simp only [clearFirstInSelectors] at done
    split at done
    · rename_i cleared' here
      cases done
      rw [selectorListRectangles, selectorListRectangles, selectorRectangles_cleared here]
    · obtain ⟨rest', below, rfl⟩ := Option.map_eq_some_iff.mp done
      rw [selectorListRectangles, selectorListRectangles, selectorListRectangles_cleared below]
end

theorem selectorRectangles_clearTarget (target : Object) :
    selectorRectangles (field (updateField (eraseIdentity target) "selector"
      clearFirstFragmentIdentity) "selector") =
      selectorRectangles (field target "selector") := by
  rw [field_updateField_self, field_eraseIdentity_of_ne target (by decide) (by decide)]
  cases here : clearFirstFragmentIdentity (field target "selector") with
  | none => rfl
  | some cleared => exact selectorRectangles_cleared here

theorem extractFragment_clearMutable (anno : Object) :
    extractFragment (clearMutableTargetResourceIDs anno) = extractFragment anno := by
  unfold extractFragment clearMutableTargetResourceIDs
  rw [field_updateField_self]
  cases shape : field anno "target" with
  | obj target =>
    simp only [clearTargetIdentity, Option.getD_some, targetPixelXYWH, selectorPixelXYWH,
      selectorRectangles_clearTarget]
  | _ => simp only [clearTargetIdentity, Option.getD_none]

theorem annotationBox_clearMutable (anno : Object) :
    annotationBox (clearMutableTargetResourceIDs anno) = annotationBox anno := by
  simp only [annotationBox, extractFragment_clearMutable]

theorem parseXYWH_empty (box : Box) : parseXYWH "" ≠ .ok box := by
  intro parsed
  have refused : (parseRoundedXYWH "").toOption = none := by decide +kernel
  unfold parseXYWH at parsed
  cases rounded : parseRoundedXYWH "" with
  | error message => simp [rounded, bind, Except.bind] at parsed
  | ok values => simp [rounded, Except.toOption] at refused

theorem annotationBox_ok_target {target : Object} {box : Box}
    (isTarget : field anno "target" = .obj target) (parsed : annotationBox anno = .ok box) :
    ∃ value, selectorRectangles (field target "selector") = .ok [value] ∧
      parseXYWH value = .ok box := by
  have same : targetPixelXYWH (.obj target) = selectorPixelXYWH (field target "selector") := rfl
  rw [annotationBox, extractFragment, isTarget, same] at parsed
  cases found : selectorPixelXYWH (field target "selector") with
  | error message => exact absurd (by simpa only [found] using parsed) (parseXYWH_empty box)
  | ok only =>
    cases only with
    | none => exact absurd (by simpa only [found] using parsed) (parseXYWH_empty box)
    | some value =>
      simp only [found] at parsed
      refine ⟨value, ?_, parsed⟩
      obtain ⟨rectangles, read, chosen⟩ := bind_ok_iff.mp found
      rw [read]
      cases rectangles with
      | nil => cases chosen
      | cons xywh more =>
        cases more with
        | nil =>
          simp only [pure, Except.pure, Except.ok.injEq, Option.some.injEq] at chosen
          rw [chosen]
        | cons _ _ => cases chosen

/-- A rewritten target that still names one box names the written one. -/
theorem box_of_targetHas {target : Object} {canvasURI : String} {box read : Box}
    (has : TargetHas target canvasURI (formatXYWH box)) (valid : box.Valid)
    (isTarget : field anno "target" = .obj target) (parsed : annotationBox anno = .ok read) :
    read = box := by
  obtain ⟨value, only, isBox⟩ := annotationBox_ok_target isTarget parsed
  obtain ⟨other, member, written⟩ := has.rectangle [value] only
  rw [mem_singleton] at member
  subst member
  rw [parseXYWH_written valid written] at isBox
  exact (Except.ok.inj isBox).symm

theorem extractCanvasURI_eq (anno : Object) :
    extractCanvasURI anno = (Go.cut (if Go.trimSpace (annStringValue anno "on") = "" then
      targetCanvas (field anno "target") else Go.trimSpace (annStringValue anno "on")) '#').1 := by
  have empty : (Go.cut "" '#').1 = "" := by decide
  unfold extractCanvasURI
  simp only
  generalize (if Go.trimSpace (annStringValue anno "on") = "" then targetCanvas (field anno "target")
    else Go.trimSpace (annStringValue anno "on")) = text
  split
  · rename_i none
    rw [none, empty]
  · rfl

theorem extractCanvasURI_rewritten {updated target : Object} {canvasURI xywh : String}
    (before : extractCanvasURI anno = canvasURI) (has : TargetHas target canvasURI xywh)
    (sameOn : field updated "on" = field anno "on") (isTarget : field updated "target" = .obj target) :
    extractCanvasURI updated = canvasURI := by
  rw [extractCanvasURI_eq] at before ⊢
  have noMark : '#' ∉ canvasURI.toList := by
    rw [← before]
    exact Go.not_mem_cut_fst _ _
  rw [annStringValue_congr sameOn, isTarget, has.canvas]
  by_cases unnamed : Go.trimSpace (annStringValue anno "on") = ""
  · rw [if_pos unnamed, Go.cut_of_not_mem noMark]
  · rw [if_neg unnamed] at before ⊢
    exact before

/-! ## Derived annotations -/

theorem cleared_of_targetHas {target : Object} {canvasURI xywh : String}
    (has : TargetHas target canvasURI xywh) (isTarget : field anno "target" = .obj target) :
    ∃ target', field (clearMutableTargetResourceIDs anno) "target" = .obj target' ∧
      TargetHas target' canvasURI xywh := by
  refine ⟨updateField (eraseIdentity target) "selector" clearFirstFragmentIdentity, ?_, ?_, ?_⟩
  · rw [clearMutableTargetResourceIDs, field_updateField_self, isTarget]
    rfl
  · rw [field_updateField_of_ne _ _ (by decide), field_eraseIdentity_of_ne _ (by decide) (by decide)]
    exact has.source
  · intro rectangles read
    rw [selectorRectangles_clearTarget] at read
    exact has.rectangle rectangles read

/-- An annotation whose place was rewritten: its box, if it reads as one, and its Canvas. -/
structure Placed (anno : Object) (canvasURI : String) (box : Box) : Prop where
  box : ∀ read, annotationBox anno = .ok read → read = box
  canvas : extractCanvasURI anno = canvasURI

theorem Placed.of_target {updated target : Object} {canvasURI : String} {box : Box} (valid : box.Valid)
    (before : extractCanvasURI anno = canvasURI) (has : TargetHas target canvasURI (formatXYWH box))
    (sameOn : field updated "on" = field anno "on") (isTarget : field updated "target" = .obj target) :
    Placed updated canvasURI box :=
  ⟨fun _ parsed => box_of_targetHas has valid isTarget parsed,
    extractCanvasURI_rewritten before has sameOn isTarget⟩

theorem field_clearMutable_of_ne (anno : Object) {key : String} (apart : "target" ≠ key) :
    field (clearMutableTargetResourceIDs anno) key = field anno key :=
  field_updateField_of_ne anno _ apart

section
variable {word updated : Object} {canvasURI : String} {box : Box}

/-- A word is left alone if it already stands in its place, and gets a new target otherwise. -/
theorem retargetExistingWord_ok_iff :
    retargetExistingWord ext word canvasURI box = .ok updated ↔
      (annotationBox word = .ok box ∧ extractCanvasURI word = Go.trimSpace canvasURI) ∧
      word = updated ∨
      ¬ (annotationBox word = .ok box ∧ extractCanvasURI word = Go.trimSpace canvasURI) ∧
        ∃ target, targetWithFragment ext (field word "target") canvasURI box = .ok target ∧
          clearMutableTargetResourceIDs (Assoc.set word "target" (.obj target)) = updated := by
  have step : retargetExistingWord ext word canvasURI box =
      if annotationBox word = .ok box ∧ extractCanvasURI word = Go.trimSpace canvasURI then pure word
      else targetWithFragment ext (field word "target") canvasURI box >>= fun target =>
        pure (clearMutableTargetResourceIDs (Assoc.set word "target" (.obj target))) := by
    unfold retargetExistingWord
    cases annotationBox word with
    | error message => simp
    | ok current => simp
  rw [step]
  split
  · rename_i here
    simp only [here, pure_ok_iff, and_self, true_and, not_true, false_and, or_false]
  · rename_i away
    simp only [away, bind_ok_iff, pure_ok_iff, not_false_iff, false_and, true_and, false_or]

variable (done : retargetExistingWord ext word canvasURI box = .ok updated)
include done

theorem retargetExistingWord_field {key : String} (apart : "target" ≠ key) :
    field updated key = field word key := by
  rcases retargetExistingWord_ok_iff.mp done with ⟨_, rfl⟩ | ⟨_, target, _, rfl⟩
  · rfl
  · rw [field_clearMutable_of_ne _ apart, field_set_of_ne _ _ apart]

theorem retargetExistingWord_box {read : Box} (valid : box.Valid)
    (parsed : annotationBox updated = .ok read) : read = box := by
  rcases retargetExistingWord_ok_iff.mp done with ⟨⟨placed, _⟩, rfl⟩ | ⟨_, target, made, rfl⟩
  · exact Except.ok.inj (parsed.symm.trans placed)
  · obtain ⟨target', isTarget, has⟩ :=
      cleared_of_targetHas (targetWithFragment_has made) (field_set_self word "target" _)
    exact box_of_targetHas has valid isTarget parsed

theorem retargetExistingWord_placed (valid : box.Valid)
    (before : extractCanvasURI word = Go.trimSpace canvasURI) :
    Placed updated (Go.trimSpace canvasURI) box := by
  refine ⟨fun read => retargetExistingWord_box done valid, ?_⟩
  rcases retargetExistingWord_ok_iff.mp done with ⟨_, rfl⟩ | ⟨_, target, made, rfl⟩
  · exact before
  · obtain ⟨target', isTarget, has⟩ :=
      cleared_of_targetHas (targetWithFragment_has made) (field_set_self word "target" _)
    refine extractCanvasURI_rewritten before has ?_ isTarget
    rw [field_clearMutable_of_ne _ (by decide), field_set_of_ne _ _ (by decide)]

end

def stamped (template : Object) (id granularity : String) : Object :=
  setMissing (Assoc.set (Assoc.set (Assoc.set template "id" (.str id)) "type" (.str "Annotation"))
    "textGranularity" (.str granularity)) "motivation" (.str "supplementing")

theorem field_stamped (template : Object) (id granularity : String) {key : String}
    (other : key ∉ ["id", "type", "textGranularity", "motivation"]) :
    field (stamped template id granularity) key = field template key := by
  simp only [mem_cons, not_mem_nil, or_false, not_or] at other
  obtain ⟨notID, notType, notLevel, notMotivation⟩ := other
  rw [stamped, field_setMissing_of_ne _ _ (Ne.symm notMotivation),
    field_set_of_ne _ _ (Ne.symm notLevel), field_set_of_ne _ _ (Ne.symm notType),
    field_set_of_ne _ _ (Ne.symm notID)]

@[simp] theorem annStringValue_id_stamped (template : Object) (id granularity : String) :
    annStringValue (stamped template id granularity) "id" = id := by
  rw [stamped, annStringValue_congr (field_setMissing_of_ne _ _ (by decide)),
    annStringValue_congr (field_set_of_ne _ _ (by decide)),
    annStringValue_congr (field_set_of_ne _ _ (by decide)), annStringValue_set_self]

@[simp] theorem annStringValue_level_stamped (template : Object) (id granularity : String) :
    annStringValue (stamped template id granularity) "textGranularity" = granularity := by
  rw [stamped, annStringValue_congr (field_setMissing_of_ne _ _ (by decide)), annStringValue_set_self]

def Copyable (anno : Object) : Prop := (Json.obj anno).nesting ≤ maxJSONNestingDepth

instance (anno : Object) : Decidable (Copyable anno) := Nat.decLe _ _

theorem cloneAnnotation_ok_iff {copy : Object} : cloneAnnotation anno = .ok copy ↔
      Copyable anno ∧ copy = anno := by
  unfold cloneAnnotation Copyable
  split
  · rename_i deep
    simp [Nat.not_le.mpr deep]
  · rename_i shallow
    simp [Nat.not_lt.mp shallow, eq_comm]

def retypedWord (template : Object) (id text : String) : Object :=
  if extractAnnotationText (stamped template id "word") ≠ Go.trimSpace text then
    updateField (Assoc.set (stamped template id "word") "body"
      (textBodyWithValue (field (stamped template id "word") "body") (Go.trimSpace text))) "body"
        clearFirstTextualBodyIdentity
  else stamped template id "word"

theorem field_retypedWord_of_ne (template : Object) (id text : String) {key : String}
    (notBody : "body" ≠ key) :
    field (retypedWord template id text) key = field (stamped template id "word") key := by
  unfold retypedWord
  split
  · rw [field_updateField_of_ne _ _ notBody, field_set_of_ne _ _ notBody]
  · rfl

theorem extractAnnotationText_retypedWord (template : Object) (id text : String) :
    extractAnnotationText (retypedWord template id text) =
      if extractAnnotationText template = Go.trimSpace text then extractAnnotationText template
      else bodyText (textBodyWithValue (field template "body") (Go.trimSpace text)) := by
  have sameBody := @field_stamped template id "word" "body" (by decide)
  rw [retypedWord, extractAnnotationText_congr sameBody, sameBody]
  by_cases same : extractAnnotationText template = Go.trimSpace text
  · rw [if_neg (not_not_intro same), if_pos same, extractAnnotationText_congr sameBody]
  · rw [if_pos same, if_neg same, extractAnnotationText_clearBody, extractAnnotationText_eq,
      field_set_self]

section
variable {template word : Object} {id canvasURI : String} {box : Box}

theorem updatedRetainedWord_ok_iff :
    updatedRetainedWord ext template id canvasURI box text = .ok word ↔
      Copyable template ∧ retargetExistingWord ext (retypedWord template id text) canvasURI
        box = .ok word := by
  have steps : updatedRetainedWord ext template id canvasURI box text =
      cloneAnnotation template >>= fun copy =>
        retargetExistingWord ext (retypedWord copy id text) canvasURI box := rfl
  simp only [steps, bind_ok_iff, cloneAnnotation_ok_iff, and_assoc, exists_and_left, exists_eq_left]

variable (done : updatedRetainedWord ext template id canvasURI box text = .ok word)
include done

theorem updatedRetainedWord_field {key : String} (notBody : "body" ≠ key)
    (notTarget : "target" ≠ key) : field word key = field (stamped template id "word") key := by
  rw [retargetExistingWord_field (updatedRetainedWord_ok_iff.mp done).2 notTarget,
    field_retypedWord_of_ne _ _ _ notBody]

theorem updatedRetainedWord_id : annStringValue word "id" = id := by
  rw [annStringValue_congr (updatedRetainedWord_field done (by decide) (by decide)),
    annStringValue_id_stamped]

theorem updatedRetainedWord_level : annStringValue word "textGranularity" = "word" := by
  rw [annStringValue_congr (updatedRetainedWord_field done (by decide) (by decide)),
    annStringValue_level_stamped]

theorem updatedRetainedWord_reads (valid : box.Valid)
    (before : extractCanvasURI template = Go.trimSpace canvasURI)
    (trimmed : Go.trimSpace text = text) (filled : text ≠ "") :
    Placed word (Go.trimSpace canvasURI) box ∧
      (annotationBox template = .ok box → annotationBox word = .ok box) ∧
      (extractAnnotationText word = text ↔
        extractAnnotationText template = text ∨ textLeads (field template "body") = true) := by
  obtain ⟨-, retargeted⟩ := updatedRetainedWord_ok_iff.mp done
  have same : ∀ {key}, "body" ≠ key → key ∉ ["id", "type", "textGranularity", "motivation"] →
      field (retypedWord template id text) key = field template key := fun notBody other =>
    (field_retypedWord_of_ne template id text notBody).trans (field_stamped template id "word" other)
  have sameTarget := @same "target" (by decide) (by decide)
  have onCanvas : extractCanvasURI (retypedWord template id text) = Go.trimSpace canvasURI := by
    rw [extractCanvasURI_congr (same (by decide) (by decide)) sameTarget, before]
  refine ⟨retargetExistingWord_placed retargeted valid onCanvas, ?_, ?_⟩
  · intro placed
    have here : annotationBox (retypedWord template id text) = .ok box := by
      rw [annotationBox_congr sameTarget, placed]
    rcases retargetExistingWord_ok_iff.mp retargeted with ⟨_, rfl⟩ | ⟨away, _⟩
    · exact here
    · exact absurd ⟨here, onCanvas⟩ away
  · rw [extractAnnotationText_congr (retargetExistingWord_field retargeted (by decide)),
      extractAnnotationText_retypedWord, trimmed]
    by_cases same : extractAnnotationText template = text
    · simp [same]
    · rw [if_neg same, bodyText_textBodyWithValue _ trimmed filled]
      cases textLeads (field template "body") with
      | true => simp
      | false => simp [← extractAnnotationText_eq, same]

end

section
variable {template : Object} {id granularity canvasURI : String} {box : Box}

theorem deriveTextAnnotation_ok_iff :
    deriveTextAnnotation ext template id granularity canvasURI box text = .ok anno ↔
      Copyable template ∧ ∃ target,
        targetWithFragment ext (field template "target") canvasURI box = .ok target ∧
        clearMutableEmbeddedResourceIDs (Assoc.set (Assoc.set (stamped template id granularity) "body"
          (textBodyWithValue (field template "body") (Go.trimSpace text))) "target" (.obj
            target)) = anno := by
  simp only [bind_ok_iff, deriveTextAnnotation, cloneAnnotation_ok_iff, pure_ok_iff, and_assoc,
    exists_and_left, exists_eq_left]
  rw [← stamped, field_set_of_ne _ _ (by decide), field_stamped _ _ _ (by decide),
    field_stamped _ _ _ (by decide)]

variable (done : deriveTextAnnotation ext template id granularity canvasURI box text = .ok anno)
include done

theorem deriveTextAnnotation_field {key : String} (notBody : "body" ≠ key)
    (notTarget : "target" ≠ key) :
    field anno key = field (stamped template id granularity) key := by
  obtain ⟨-, target, _, rfl⟩ := deriveTextAnnotation_ok_iff.mp done
  rw [clearMutableEmbeddedResourceIDs, field_clearMutable_of_ne _ notTarget,
    field_updateField_of_ne _ _ notBody, field_set_of_ne _ _ notTarget, field_set_of_ne _ _ notBody]

theorem deriveTextAnnotation_id : annStringValue anno "id" = id := by
  rw [annStringValue_congr (deriveTextAnnotation_field done (by decide) (by decide)),
    annStringValue_id_stamped]

theorem deriveTextAnnotation_level : annStringValue anno "textGranularity" = granularity := by
  rw [annStringValue_congr (deriveTextAnnotation_field done (by decide) (by decide)),
    annStringValue_level_stamped]

theorem extractAnnotationText_derived : extractAnnotationText anno =
    bodyText (textBodyWithValue (field template "body") (Go.trimSpace text)) := by
  obtain ⟨-, target, _, rfl⟩ := deriveTextAnnotation_ok_iff.mp done
  rw [clearMutableEmbeddedResourceIDs,
    extractAnnotationText_congr (field_clearMutable_of_ne _ (by decide)),
    extractAnnotationText_clearBody, extractAnnotationText_congr (field_set_of_ne _ _ (by decide)),
    extractAnnotationText_eq, field_set_self]

theorem deriveTextAnnotation_reads (valid : box.Valid)
    (before : extractCanvasURI template = Go.trimSpace canvasURI) :
    Placed anno (Go.trimSpace canvasURI) box ∧
      (Go.trimSpace text ≠ "" → extractAnnotationText anno =
        if textLeads (field template "body") then Go.trimSpace text
        else extractAnnotationText template) := by
  have sameOn : field anno "on" = _ := deriveTextAnnotation_field done (by decide) (by decide)
  have isText := extractAnnotationText_derived done
  obtain ⟨-, target, made, rfl⟩ := deriveTextAnnotation_ok_iff.mp done
  refine ⟨?_, ?_⟩
  · have isTarget : field (updateField (Assoc.set (Assoc.set (stamped template id granularity) "body"
        (textBodyWithValue (field template "body") (Go.trimSpace text))) "target" (.obj target)) "body"
          clearFirstTextualBodyIdentity) "target" = .obj target := by
      rw [field_updateField_of_ne _ _ (by decide), field_set_self]
    obtain ⟨target', isTarget', has⟩ := cleared_of_targetHas (targetWithFragment_has made) isTarget
    exact .of_target valid before has (sameOn.trans (field_stamped _ _ _ (by decide))) isTarget'
  · intro filled
    rw [isText, bodyText_textBodyWithValue _ (Go.trimSpace_trimSpace text) filled,
      extractAnnotationText_eq]

end

end Scribe.Server
