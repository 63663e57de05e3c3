import Scribe.Editor.LineText
import Scribe.Server.ExactTokens

/-! The texts that the browser and the server read.

The browser reads the first transcription among the bodies, or else the first textual
body, and writes into the first transcription or before all bodies. The server reads
the first body that has a value. They agree, before and after every edit, exactly when
no other body has a text.
-/

set_option autoImplicit false

namespace Scribe.Editor

open List

open Server (entryText bodyText extractAnnotationText)

mutual
def hasTextualBody : Json → Bool
  | .obj body => Go.equalFold (Go.trimSpace (Iiif.stringValue (Json.field body "type"))) "TextualBody"
  | .arr bodies => hasTextualBodies bodies
  | _ => false

def hasTextualBodies : List Json → Bool
  | [] => false
  | body :: rest => hasTextualBody body || hasTextualBodies rest
end

def trimmedText : Json → Option String
  | .str text => some (Go.trimSpace text)
  | _ => none

def chosenBody (bodies : List Json) : Option Json :=
  (bodies.find? isTranscription).or (bodies.find? isTextual)

/-- A value that both sides read as the same text. A number is a text for the server only. -/
def plainValue : Json → Bool
  | .str _ | .null | .bool false => true
  | .num literal => Go.trimSpace literal = ""
  | _ => false

/-- Among the bodies no text stands outside the one the browser writes to, and the one it reads has
a plain value. -/
def oneText : Json → Bool
  | .obj body =>
      if isTextual (.obj body) then plainValue (Json.field body "value")
      else entryText (.obj body) = ""
  | .arr bodies =>
      (bodies.eraseP isTranscription).all (entryText · = "") &&
        (chosenBody bodies).all fun body => plainValue (Json.field body.toObject "value")
  | _ => false

/-! ## Reading -/

theorem truthy_blank {literal : String} (blank : Go.trimSpace literal = "") :
    truthy (.num literal) = false := by
  rw [truthy, any_eq_false]
  intro c among digit
  -- A digit would be left after trimming.
  have visible : Text.unicodeSpace c = false :=
    Iiif.unicodeSpace_digit (of_decide_eq_true digit).1
  have left := Text.mem_trimChars ((takeWhile_subset _) among) visible
  have chars := congrArg String.toList blank
  rw [Go.trimSpace, Text.trim, String.toList_ofList] at chars
  rw [chars] at left
  cases left

theorem plainValue_iff (body : Object) :
    trimmedText (if truthy (Json.field body "value") then Json.field body "value" else .str "") =
        some (entryText (.obj body)) ↔ plainValue (Json.field body "value") = true := by
  simp only [entryText, Json.toObject_obj, Server.annStringValue]
  cases Json.field body "value" with
  | str text =>
    by_cases empty : text = ""
    · simp [empty, truthy, trimmedText, plainValue]
    · simp [empty, truthy, trimmedText, plainValue]
  | num literal =>
    by_cases blank : Go.trimSpace literal = ""
    · simp [truthy_blank blank, blank, trimmedText, plainValue]
    · cases truthy (.num literal) <;> simp [trimmedText, plainValue, blank]
  | bool value => cases value <;> simp [truthy, trimmedText, plainValue]
  | _ => simp [truthy, trimmedText, plainValue]

theorem bodyText_between {front back : List Json} (entry : Json)
    (others : ∀ other ∈ front ++ back, entryText other = "") :
    bodyText (.arr (front ++ entry :: back)) = entryText entry := by
  induction front with
  | nil =>
    rw [nil_append, Server.bodyText_cons]
    split
    · rename_i empty
      rw [empty]
      exact (Server.bodyText_eq_empty_iff back).mpr others
    · rfl
  | cons first rest ih =>
    rw [cons_append, Server.bodyText_cons, if_pos (others first mem_cons_self)]
    exact ih fun other among => others other (mem_cons_of_mem _ among)

/-! ## Writing -/

theorem replaceTranscription_cases (bodies : List Json) :
    (bodies.find? isTranscription = none ∧ bodies.eraseP isTranscription = bodies ∧
      ∀ text, replaceTranscription text bodies = none) ∨
    ∃ front old back, bodies = front ++ old :: back ∧ bodies.find? isTranscription = some old ∧
      bodies.eraseP isTranscription = front ++ back ∧
      ∀ text, replaceTranscription text bodies =
        some (front ++ .obj (replacementBody old.toObject text) :: back) := by
  induction bodies with
  | nil => exact .inl ⟨rfl, rfl, fun text => rfl⟩
  | cons body rest ih =>
    by_cases here : isTranscription body = true
    · exact .inr ⟨[], body, rest, rfl,
        by simp [here], by simp [here], fun text => by simp [replaceTranscription, here]⟩
    · rcases ih with ⟨unfound, erased, replaced⟩ | ⟨front, old, back, rfl, found, erased, replaced⟩
      · exact .inl ⟨by simp [here, unfound], by simp [here, erased], fun text => by
          simp [replaceTranscription, here, replaced text]⟩
      · exact .inr ⟨body :: front, old, back, rfl,
          by simpa [here] using found, by simpa [here] using erased,
          fun text => by simp [replaceTranscription, here, replaced text]⟩

theorem entryText_replacementBody (body : Object) (text : String) :
    entryText (.obj (replacementBody body text)) = Go.trimSpace text :=
  Server.entryText_of_field (field_replacementBody_value body text)

theorem update_reads_iff {anno : Object} {bodies : List Json}
    (shape : Json.field anno "body" = .arr bodies) :
    (∀ text, extractAnnotationText (updateAnnotationText anno text) = Go.trimSpace text) ↔
      ∀ entry ∈ bodies.eraseP isTranscription, entryText entry = "" := by
  have reads : ∀ front old back, bodies.eraseP isTranscription = front ++ back →
      (∀ text, extractAnnotationText (updateAnnotationText anno text) =
        bodyText (.arr (front ++ .obj (replacementBody old text) :: back))) →
      ((∀ text, extractAnnotationText (updateAnnotationText anno text) = Go.trimSpace text) ↔
        ∀ entry ∈ bodies.eraseP isTranscription, entryText entry = "") := by
    intro front old back erased written
    rw [erased]
    constructor
    · intro returned entry among
      -- The empty text is read only if nothing else has one.
      have empty := (written "").symm.trans (returned "")
      rw [Server.trimSpace_empty, Server.bodyText_eq_empty_iff] at empty
      refine empty entry ?_
      rcases mem_append.mp among with before | after
      · exact mem_append_left _ before
      · exact mem_append_right _ (mem_cons_of_mem _ after)
    · intro others text
      rw [written text, bodyText_between _ others, entryText_replacementBody]
  have updated : ∀ text, extractAnnotationText (updateAnnotationText anno text) =
      bodyText (.arr ((replaceTranscription text bodies).getD
          (.obj (replacementBody [] text) :: bodies))) := by
    intro text
    rw [Server.extractAnnotationText_eq, updateAnnotationText, shape, Json.field_set_self]
  rcases replaceTranscription_cases bodies with
      ⟨-, erased, replaced⟩ | ⟨front, old, back, -, -, erased, replaced⟩
  · exact reads [] [] bodies erased fun text => by rw [updated, replaced text]; rfl
  · exact reads front old.toObject back erased fun text => by rw [updated, replaced text]; rfl

theorem bodyText_chosenBody {bodies : List Json}
    (others : ∀ entry ∈ bodies.eraseP isTranscription, entryText entry = "") :
    bodyText (.arr bodies) = ((chosenBody bodies).map entryText).getD "" := by
  rcases replaceTranscription_cases bodies with
      ⟨unfound, erased, -⟩ | ⟨front, old, back, rfl, found, erased, -⟩
  · rw [erased] at others
    rw [(Server.bodyText_eq_empty_iff bodies).mpr others, chosenBody, unfound, Option.none_or]
    cases textual : bodies.find? isTextual with
    | none => rfl
    | some body => exact (others body (mem_of_find?_eq_some textual)).symm
  · rw [erased] at others
    rw [bodyText_between old others, chosenBody, found]
    rfl

/-- The browser and the server read the same text, before and after every edit, exactly when there
is one text. -/
theorem texts_agree_iff (anno : Object) (accepted : hasTextualBody (Json.field anno "body") = true) :
    (trimmedText (annotationText anno) = some (extractAnnotationText anno) ∧
      ∀ text, extractAnnotationText (updateAnnotationText anno text) = Go.trimSpace text) ↔
    oneText (Json.field anno "body") = true := by
  rw [Server.extractAnnotationText_eq, annotationText, annotationTextBody]
  cases shape : Json.field anno "body" with
  | obj body =>
    have returned : ∀ text, extractAnnotationText (updateAnnotationText anno text) =
        Go.trimSpace text := by
      intro text
      rw [Server.extractAnnotationText_eq, updateAnnotationText, shape, Json.field_set_self,
        Server.bodyText_singleton, entryText_replacementBody]
    simp only [oneText, bodyText, returned, implies_true, and_true]
    cases textual : isTextual (.obj body) with
    | true => simpa using plainValue_iff body
    | false =>
      simp only [trimmedText, Bool.false_eq_true, if_false, Server.trimSpace_empty, Option.some.injEq,
        decide_eq_true_eq]
      exact eq_comm
  | arr bodies =>
    rw [update_reads_iff shape, oneText, Bool.and_eq_true, all_eq_true, and_comm]
    simp only [decide_eq_true_eq]
    refine and_congr_right fun others => ?_
    rw [bodyText_chosenBody others, ← chosenBody]
    cases chosenBody bodies with
    | none => simp [trimmedText]
    | some body => exact plainValue_iff body.toObject
  | null | bool | num | str =>
    rw [shape, hasTextualBody] at accepted
    · cases accepted
    all_goals simp

def taggedAnno (tag : String) : Object :=
  [("body", .arr [.obj [("type", .str "TextualBody"), ("purpose", .str "tagging"),
    ("value", .str tag)], .obj [("type", .str "TextualBody"), ("purpose", .str "supplementing"),
    ("value", .str "text")]])]

theorem texts_agree_untagged :
    trimmedText (annotationText (taggedAnno "")) = some (extractAnnotationText (taggedAnno "")) ∧
      ∀ text, extractAnnotationText (updateAnnotationText (taggedAnno "") text) = Go.trimSpace text :=
  (texts_agree_iff (taggedAnno "") (by decide +kernel)).mpr (by decide +kernel)

theorem tag_hides_transcription :
    hasTextualBody (Json.field (taggedAnno "tag") "body") = true ∧
    annotationText (taggedAnno "tag") = .str "text" ∧
    extractAnnotationText (taggedAnno "tag") = "tag" ∧
    extractAnnotationText (updateAnnotationText (taggedAnno "tag") "new") = "tag" := by
  decide +kernel

end Scribe.Editor
