import Scribe.Server.Page

/-! Structural edits of a draft page.

A draft is a complete validated page that an editor submits. Splitting and joining
replace items of the draft and leave saving it to the reconciliation. Some edits
write into their items before they can still fail, so a refusal carries the items
as the edit left them.
-/

set_option autoImplicit false

namespace Scribe.Server

open Iiif

structure AnnotationDraft where
  identity : PageIdentity
  pageID : String
  items : List Json
  rawBytes : Nat

/-- A refused edit: its message, and the draft's items after it. -/
structure Refusal where
  message : String
  items : List Json
  deriving DecidableEq

def refusing {α : Type} (items : List Json) : Except String α → Except Refusal α
  | .ok value => .ok value
  | .error message => .error ⟨message, items⟩

namespace AnnotationDraft

/-- The last position of each trimmed identifier. Items without one share the empty text. -/
def indexByID (draft : AnnotationDraft) : List (String × Nat) :=
  Assoc.ofEntries (draft.items.zipIdx.map fun entry => (Go.trimSpace (itemID entry.1), entry.2))

/-! ## Selected annotations -/

def annotation (draft : AnnotationDraft) (id granularity : String) : Except String Located :=
  let id := Go.trimSpace id
  if id = "" then .error "annotation id is required"
  else match Assoc.get draft.indexByID id with
    | none => .error ("annotation " ++ Go.quote id ++ " was not found")
    | some index => match draft.items[index]? with
        | some (.obj anno) =>
            if !hasLowerGranularity anno granularity then
              .error ("annotation " ++ Go.quote id ++ " must have " ++ granularity ++ " granularity")
            else match annotationBox anno with
              | .ok box => .ok ⟨anno, index, box⟩
              | .error message =>
                  .error ("annotation " ++ Go.quote id ++ " has invalid geometry: " ++ message)
        | _ => .error ("annotation " ++ Go.quote id ++ " was not found")

def locateSelected (draft : AnnotationDraft) (granularity : String) : (seen ids : List String) →
    Except String (List Located)
  | _, [] => .ok []
  | seen, id :: rest =>
      let id := Go.trimSpace id
      if id ∈ seen then .error "annotation ids must be unique"
      else do
        let first ← draft.annotation id granularity
        let others ← draft.locateSelected granularity (id :: seen) rest
        return first :: others

end AnnotationDraft

def centerBefore (a b : Located) : Prop :=
  [a.box.y1 + a.box.y2, a.box.x1, a.index] ≤ [b.box.y1 + b.box.y2, b.box.x1, b.index]

instance : DecidableRel centerBefore := fun _ _ => inferInstanceAs (Decidable (_ ≤ _))

def sortLocatedAnnotations (values : List Located) : List Located := values.insertionSort centerBefore

/-- The place of an owned word: the rank of its line and its place within the line. -/
def wordOrders (items : List Json) : List (String × List Nat) :=
  let assigned := assignSpatialWordsToLines items none
  Assoc.ofEntries ((sortLocatedAnnotations (locatedOf items "line")).zipIdx.flatMap fun line =>
    (((Assoc.get assigned line.1.id).getD []).filterMap locateWord?).map fun word =>
      (word.id, [line.2, word.box.x1, word.box.y1, word.index]))

/-- Owned words come line by line, before the loose ones. -/
def readingBefore (orders : List (String × List Nat)) (a b : Located) : Prop :=
  match Assoc.get orders a.id, Assoc.get orders b.id with
  | some left, some right => left ≤ right
  | some _, none => True
  | none, some _ => False
  | none, none =>
      [a.box.y1 + a.box.y2, a.box.x1, a.box.y1, a.index] ≤ [b.box.y1 + b.box.y2, b.box.x1,
        b.box.y1, b.index]

instance (orders : List (String × List Nat)) : DecidableRel (readingBefore orders) := fun a b => by
  unfold readingBefore
  split <;> infer_instance

namespace AnnotationDraft

def sortWordsInReadingOrder (draft : AnnotationDraft) (values : List Located) : List Located :=
  values.insertionSort (readingBefore (wordOrders draft.items))

def annotations (draft : AnnotationDraft) (ids : List String) (granularity : String) :
    Except String (List Located) := do
  if ids.length < 2 then throw "at least two annotation ids are required"
  let located ← draft.locateSelected granularity [] ids
  return if granularity = "word" then draft.sortWordsInReadingOrder located
    else sortLocatedAnnotations located

def wordsForLine (draft : AnnotationDraft) (lineID : String) : List Located :=
  wordsOfLine (assignSpatialWordsToLines draft.items none) (Go.trimSpace lineID)

def hasIDOutside (draft : AnnotationDraft) (id : String) (removed : List Nat) : Bool :=
  draft.items.zipIdx.any fun entry =>
    entry.2 ∉ removed && match entry.1 with
      | .obj anno => Go.trimSpace (annStringValue anno "id") = Go.trimSpace id
      | _ => false

end AnnotationDraft

def replaceDraftItems (items : List Json) (remove : List Nat) (insertAt : Nat)
    (replacements : List Json) : List Json :=
  let kept (entries : List (Json × Nat)) := (entries.filter (·.2 ∉ remove)).map (·.1)
  kept (items.zipIdx.take insertAt) ++ replacements ++ kept (items.zipIdx.drop insertAt)

/-! ## Splitting into words -/

def maxStructuralWordBytes : Nat := 16 * 2 ^ 10

def wordTooLong : String := "word exceeds " ++ Nat.repr maxStructuralWordBytes ++ " encoded bytes"

def pageTooLarge : String :=
  "transformed page would exceed " ++ Nat.repr maxAnnotationPageBytes ++ " bytes"

def tooManyAnnotations : String :=
  "transformed page would exceed " ++ Nat.repr maxAnnotationsPerPage ++ " annotations"

def tooNarrow (count : Nat) : String :=
  "line geometry is too narrow for " ++ Nat.repr count ++ " distinct word boxes"

/-- Equal widths, with the rest in the last word. -/
def splitWordBox (line : Box) (index count : Nat) : Box :=
  let wordWidth := max 1 (max 1 (line.x2 - line.x1) / count)
  let x1 := line.x1 + index * wordWidth
  ⟨x1, line.y1, if index + 1 = count then line.x2 else x1 + wordWidth, line.y2⟩

def deriveSplitWords (ext : Externals) (canvasURI : String) (line : Object) (box : Box)
    (words wordIDs : List String) : Except String (List Object) :=
  (words.zip wordIDs).zipIdx.mapM fun entry =>
    deriveTextAnnotation ext line entry.1.2 "word" canvasURI
      (splitWordBox box entry.2 words.length) entry.1.1

/-- A derived identifier may only be that of a word which the split replaces. -/
def collides (draft : AnnotationDraft) (owned : List Nat) (wordID : String) : Bool :=
  match Assoc.get draft.indexByID wordID with
  | some index => index ∉ owned || !isGranularity (annotationAt draft.items index) "word"
  | none => false

def collision (wordID : String) : String :=
  "generated word annotation id " ++ Go.quote wordID ++ " collides with an unrelated page item"

def chargeWords (templateBytes : Nat) (tooLong : String → Except String Unit) :
    (remaining : Nat) → List String → Except String Nat
  | remaining, [] => .ok remaining
  | remaining, word :: rest => do
      tooLong word
      let cost := templateBytes + 6 * word.utf8ByteSize + 256
      if cost > remaining then throw pageTooLarge
      chargeWords templateBytes tooLong (remaining - cost) rest

def requireShortWord (word : String) : Except String Unit :=
  if word.utf8ByteSize > maxStructuralWordBytes then .error wordTooLong else .ok ()

def preflightWordFanoutBytes (currentPageBytes templateBytes : Nat) (words : List String) :
    Except String Unit := do
  if maxAnnotationPageBytes < currentPageBytes then
    throw ("annotation page exceeds " ++ Nat.repr maxAnnotationPageBytes ++ " bytes")
  let _ ← chargeWords templateBytes (fun _ => .ok ()) (maxAnnotationPageBytes - currentPageBytes) words
  return ()

/-- The words a line is split into: the requested ones, or the tokens of its text. -/
def requestedLineWords (line : Located) (requested : List String) : Except String (List String) := do
  let words := requested.map Go.trimSpace
  if "" ∈ words then throw "words must not contain empty values"
  let words := if words = [] then Go.fields line.text else words
  if words = [] then throw "line has no words"
  if words.length > maxAnnotationsPerPage then
    throw ("word count exceeds " ++ Nat.repr maxAnnotationsPerPage)
  words.forM requireShortWord
  if max 1 (line.box.x2 - line.box.x1) < words.length then throw (tooNarrow words.length)
  return words

def splitDraftLineIntoWords (ext : Externals) (draft : AnnotationDraft) (lineID : String)
    (requested : List String) : Except Refusal (List Json) := do
  let line ← refusing draft.items (draft.annotation lineID "line")
  let words ← refusing draft.items (requestedLineWords line requested)
  let owned := (draft.wordsForLine lineID).map Located.index
  if draft.items.length - owned.length + words.length > maxAnnotationsPerPage then
    throw ⟨tooManyAnnotations, draft.items⟩
  refusing draft.items (preflightWordFanoutBytes draft.rawBytes (encodedSize line) words)
  let wordIDs ← refusing draft.items ((List.range words.length).mapM fun index => do
    let wordID ← structuralWordID ext draft.pageID lineID index
    if collides draft owned wordID then throw (collision wordID)
    return wordID)
  let anno := setAnnotationText line.anno (Go.join words)
  let items := writeAt draft.items line anno
  let generated ← refusing items (deriveSplitWords ext draft.identity.canvasURI anno line.box
    words wordIDs)
  return replaceDraftItems items owned (line.index + 1) (generated.map Json.obj)

/-- A line of a page split, with its tokens. -/
structure SplitPlan where
  line : Located
  words : List String

def splitPlans : (remaining : Nat) → List (Json × Nat) → Except String (List SplitPlan)
  | _, [] => .ok []
  | remaining, (item, index) :: rest =>
      if !isLineItem item then splitPlans remaining rest
      else do
        let anno := item.toObject
        let lineID := Go.trimSpace (annStringValue anno "id")
        let words := Go.fields (extractAnnotationText anno)
        if words = [] then throw ("line " ++ Go.quote lineID ++ " has no words")
        let box ← withContext ("annotation " ++ Go.quote lineID ++ " has invalid geometry: ")
          (annotationBox anno)
        if max 1 (box.x2 - box.x1) < words.length then throw (tooNarrow words.length)
        let remaining ← chargeWords (Json.obj anno).encodedBytes requireShortWord remaining words
        let plans ← splitPlans remaining rest
        return ⟨⟨anno, index, box⟩, words⟩ :: plans

def planWordIDs (ext : Externals) (draft : AnnotationDraft) (owned : List Nat) (lineID : String) :
    (used : List String) → List Nat → Except String (List String)
  | _, [] => .ok []
  | used, index :: rest => do
      let wordID ← structuralWordID ext draft.pageID lineID index
      if wordID ∈ used then throw ("generated word annotation id " ++ Go.quote wordID ++
        " is not unique")
      if collides draft owned wordID then throw (collision wordID)
      let others ← planWordIDs ext draft owned lineID (wordID :: used) rest
      return wordID :: others

structure PageSplit where
  items : List Json
  generatedIDs : List String
  generatedByLineIndex : List (Nat × List Object)

def splitPlan (ext : Externals) (draft : AnnotationDraft) (owned : List Nat) (state : PageSplit)
    (plan : SplitPlan) : Except Refusal PageSplit := do
  let wordIDs ← refusing state.items
    (planWordIDs ext draft owned (Go.trimSpace plan.line.id) state.generatedIDs
      (List.range plan.words.length))
  let anno := setAnnotationText plan.line.anno (Go.join plan.words)
  let items := writeAt state.items plan.line anno
  let generated ← refusing items
    (deriveSplitWords ext draft.identity.canvasURI anno plan.line.box plan.words wordIDs)
  return {
    items
    generatedIDs := wordIDs.reverse ++ state.generatedIDs
    generatedByLineIndex := Assoc.set state.generatedByLineIndex plan.line.index generated }

def splitDraftPageIntoWords (ext : Externals) (draft : AnnotationDraft) :
    Except Refusal (List Json) := do
  let owned :=
    ((assignSpatialWordsToLines draft.items none).flatMap fun line => line.2.map (·.index)).dedup
  let plans ← refusing draft.items
    (splitPlans (maxAnnotationPageBytes - draft.rawBytes) draft.items.zipIdx)
  if plans.isEmpty then throw ⟨"annotation page has no line annotations", draft.items⟩
  if draft.items.length - owned.length + (plans.map (·.words.length)).sum > maxAnnotationsPerPage then
    throw ⟨tooManyAnnotations, draft.items⟩
  let split ← plans.foldlM (splitPlan ext draft owned) ⟨draft.items, [], []⟩
  return split.items.zipIdx.flatMap fun entry =>
    if entry.2 ∈ owned then []
    else entry.1 :: ((Assoc.get split.generatedByLineIndex entry.2).getD []).map Json.obj

end Scribe.Server
