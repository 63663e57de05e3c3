import Scribe.Server.Transforms

/-! Splitting a line in two, joining lines and joining words.

The joins work on copies and replace the items at the end. Splitting a line in two
moves the words of the line into the halves, one after the other and in place: the
target of a word is rewritten while its outline can still turn out unreadable.
-/

set_option autoImplicit false

namespace Scribe.Server

open Iiif

/-! ## Line geometry -/

def isSvgSelector : Json → Bool
  | .obj selector => Json.field selector "type" = .str "SvgSelector"
  | _ => false

def targetSelectors (target : Object) : List Json :=
  match Json.field target "selector" with
  | .arr selectors => selectors
  | selector => [selector]

def formatPoints (points : List Point) : String :=
  String.intercalate " " (points.map fun p => Int.repr p.x ++ "," ++ Int.repr p.y)

def lineGeometrySVG (polygon baseline : List Point) : String :=
  "<svg xmlns=\"http://www.w3.org/2000/svg\">" ++
    (if polygon.length > 2 then "<polygon points=\"" ++ formatPoints polygon ++ "\"/>" else "") ++
    (if baseline.length > 1 then "<polyline class=\"baseline\" points=\"" ++ formatPoints
      baseline ++ "\"/>" else "") ++
    "</svg>"

/-- Keep one outline, written from a polygon and a baseline, or none. -/
def replaceLineGeometry (anno : Object) (polygon baseline : List Point) : Object :=
  match Json.field anno "target" with
  | .obj target =>
      let selectors := targetSelectors target
      let others := selectors.filter fun selector => !isSvgSelector selector
      let retained :=
        if polygon.length > 2 ∨ baseline.length > 1 then
          let outline :=
            ((selectors.find? isSvgSelector).getD (.obj [("type", .str "SvgSelector")])).toObject
          others ++ [.obj (Assoc.set (eraseIdentity outline) "value"
            (.str (lineGeometrySVG polygon baseline)))]
        else others
      let selector := match retained with
        | [selector] => selector
        | _ => .arr retained
      Assoc.set anno "target" (.obj (Assoc.set target "selector" selector))
  | _ => anno

/-! ## Splitting in two -/

/-- The outlines of a list of selectors, carried over up to the first one that cannot be. -/
def mapSvgSelectorsUntil (ext : Externals) (old box : Box) : List Json → List Json
  | [] => []
  | selector :: rest => match mapSvgSelector ext old box selector with
      | .ok mapped => mapped :: mapSvgSelectorsUntil ext old box rest
      | .error _ => selector :: rest

/-- What a refused move leaves of a target: an object is written in place. -/
def targetLeftBy (ext : Externals) (raw : Json) (canvasURI : String) (box : Box) : Json :=
  let canvasURI := Go.trimSpace canvasURI
  match requireHTTPURL ext canvasURI "canvas uri", raw with
  | .ok _, .obj value =>
      if isCanvasReference value then .obj (Assoc.set value "id" (.str canvasURI))
      else
        let moved := setTargetCanvas value canvasURI
        match replaceSelectorPixelXYWH moved (formatXYWH box), annotationBox [("target", raw)] with
        | .ok target, .ok old => match Json.field target "selector" with
            | .arr selectors => .obj
              (Assoc.set target "selector" (.arr (mapSvgSelectorsUntil ext old box selectors)))
            | _ => .obj target
        | .ok target, .error _ => .obj target
        | .error _, _ => .obj moved
  | _, raw => raw

def halfBox (line word : Box) (boundary : Nat) (lower : Bool) : Box :=
  if lower then ⟨word.x1, boundary, word.x2, line.y2⟩ else ⟨word.x1, line.y1, word.x2, boundary⟩

def movedWord (word target : Object) : Object :=
  clearMutableTargetResourceIDs (Assoc.set word "target" (.obj target))

def leftWord (ext : Externals) (canvasURI : String) (word : Object) (box : Box) : Object :=
  Assoc.set word "target" (targetLeftBy ext (Json.field word "target") canvasURI box)

def moveWords (ext : Externals) (canvasURI : String) : (items : List Json) → List (Located × Box) →
    Except Refusal (List Json)
  | items, [] => .ok items
  | items, (word, box) :: rest =>
      match targetWithFragment ext (Json.field word.anno "target") canvasURI box with
      | .ok target => moveWords ext canvasURI (writeAt items word (movedWord word.anno target)) rest
      | .error message => .error ⟨message, writeAt items word (leftWord ext canvasURI word.anno box)⟩

def halvedWords (line : Box) (boundary splitAt : Nat) (words : List Located) : List (Located × Box) :=
  words.zipIdx.map fun entry => (entry.1, halfBox line entry.1.box boundary (splitAt ≤ entry.2))

def placeBaseline (ext : Externals) (line : Located) (boundary : Nat) (lowerID : String)
    (points : List Point) (part : Object) : Except String Object := do
  let mapped ← ext.annotationLineGeometry part
  let (y1, y2) : Int × Int :=
    if Json.field part "id" = .str lowerID then (boundary, line.box.y2) else (line.box.y1, boundary)
  let placed := points.map fun p =>
    { p with y := y1 + ((p.y - line.box.y1) * (y2 - y1)).tdiv ((line.box.y2 : Int) - line.box.y1) }
  return replaceLineGeometry part mapped.polygon placed

def halfLines (ext : Externals) (draft : AnnotationDraft) (lineID : String) (line : Located)
    (tokens : List String) (splitAt boundary : Nat) : Except String (Object × Object) := do
  let idA ← annotationID ext draft.pageID (lineID ++ nul ++ "line" ++ nul ++ "a")
  let idB ← annotationID ext draft.pageID (lineID ++ nul ++ "line" ++ nul ++ "b")
  let lineA ← deriveTextAnnotation ext line.anno idA "line" draft.identity.canvasURI
    ⟨line.box.x1, line.box.y1, line.box.x2, boundary⟩ (Go.join (tokens.take splitAt))
  let lineB ← deriveTextAnnotation ext line.anno idB "line" draft.identity.canvasURI
    ⟨line.box.x1, boundary, line.box.x2, line.box.y2⟩ (Go.join (tokens.drop splitAt))
  let geometry ← ext.annotationLineGeometry line.anno
  if geometry.baseline.length > 1 then
    let cut := line.box.x1 + (line.box.x2 - line.box.x1) * splitAt / tokens.length
    let (left, right) := ext.splitBaselineX geometry.baseline cut
    let lineA ← placeBaseline ext line boundary idB left lineA
    let lineB ← placeBaseline ext line boundary idB right lineB
    return (lineA, lineB)
  else return (lineA, lineB)

def lineAndWordsMatch (tokens : List String) (words : List Located) : Bool :=
  words.length = tokens.length && normalizedAnnotationTexts words = Go.join tokens

/-- The words before the split: the requested number, or half of them. -/
def splitPosition (requestedSplit : Int) (count : Nat) : Nat :=
  if requestedSplit ≤ 0 ∨ count ≤ requestedSplit then count / 2 else requestedSplit.toNat

/-- What a split in two is made of, once every check before the words are moved has passed. -/
structure HalvedLine where
  line : Located
  lineA : Object
  lineB : Object
  words : List (Located × Box)

def halveDraftLine (ext : Externals) (draft : AnnotationDraft) (lineID : String)
    (requestedSplit : Int) : Except String HalvedLine := do
  let line ← draft.annotation lineID "line"
  let tokens := Go.fields line.text
  if tokens.length < 2 then throw "line needs at least two words to split"
  if line.box.y2 - line.box.y1 < 2 then throw "line geometry is too short to split vertically"
  let words := draft.wordsForLine lineID
  if words ≠ [] ∧ !lineAndWordsMatch tokens words then
    throw "line and word annotations must be synchronized before splitting"
  let splitAt := splitPosition requestedSplit tokens.length
  let boundary := line.box.y1 + (line.box.y2 - line.box.y1) / 2
  let (lineA, lineB) ← halfLines ext draft lineID line tokens splitAt boundary
  return ⟨line, lineA, lineB, halvedWords line.box boundary splitAt words⟩

def splitDraftLineIntoTwo (ext : Externals) (draft : AnnotationDraft) (lineID : String)
    (requestedSplit : Int) : Except Refusal (List Json) := do
  let halved ← refusing draft.items (halveDraftLine ext draft lineID requestedSplit)
  let items ← moveWords ext draft.identity.canvasURI draft.items halved.words
  return replaceDraftItems items [halved.line.index] halved.line.index
    [.obj halved.lineA, .obj halved.lineB]

/-! ## Properties that joined annotations must share -/

mutual
def clearFirstTextualBodyValue : Json → Option Json
  | .obj body => if isTextualBody body then some (.obj (eraseIdentity (Assoc.erase body "value")))
    else none
  | .arr entries => (clearFirstValueInBodies entries).map .arr
  | _ => none

def clearFirstValueInBodies : List Json → Option (List Json)
  | [] => none
  | entry :: rest => match clearFirstTextualBodyValue entry with
      | some cleared => some (cleared :: rest)
      | none => (clearFirstValueInBodies rest).map (entry :: ·)
end

mutual
def clearFirstFragmentValue : Json → Except String (Option Json)
  | .obj selector =>
      if Go.equalFold (Go.trimSpace (annStringValue selector "type")) fragmentSelectorType then do
        let value := stringValue (Json.field selector "value")
        match ← mediaFragmentPixelXYWH value with
        | none => return none
        | some _ =>
            let withoutXYWH ← removeMediaFragmentPixelXYWH value
            let selector :=
              if withoutXYWH = "" then Assoc.erase selector "value"
              else Assoc.set selector "value" (.str withoutXYWH)
            return some (.obj (eraseIdentity selector))
      else return none
  | .arr entries => do return (← clearFirstValueInSelectors entries).map .arr
  | _ => return none

def clearFirstValueInSelectors : List Json → Except String (Option (List Json))
  | [] => return none
  | entry :: rest => do
      match ← clearFirstFragmentValue entry with
      | some cleared => return some (cleared :: rest)
      | none => return (← clearFirstValueInSelectors rest).map (entry :: ·)
end

/-- A target without its rectangle and outlines. -/
def projectTarget : Json → Except String Json
  | .str target =>
      match Go.cut (Go.trimSpace target) '#' with
      | (canvas, fragment, true) => do
          let withoutXYWH ← removeMediaFragmentPixelXYWH fragment
          return .str (if withoutXYWH = "" then Go.trimSpace canvas
            else Go.trimSpace canvas ++ "#" ++ withoutXYWH)
      | _ => return .str target
  | .obj target => do
      let target := eraseIdentity target
      let target := match ← clearFirstFragmentValue (Json.field target "selector") with
        | some selector => Assoc.set target "selector" selector
        | none => target
      let bare (selector : Json) : Json :=
        if isSvgSelector selector then .obj (eraseIdentity (Assoc.erase selector.toObject "value"))
        else selector
      return .obj (match Json.field target "selector" with
        | .arr selectors => Assoc.set target "selector" (.arr (selectors.map bare))
        | .obj selector => Assoc.set target "selector" (bare (.obj selector))
        | _ => target)
  | target => return target

def structuralPropertyProjection (anno : Object) : Except String Object := do
  let projection ← cloneAnnotation anno
  let projection := Assoc.erase (Assoc.erase projection "id") "textGranularity"
  let projection := updateField projection "body" clearFirstTextualBodyValue
  match Assoc.get projection "target" with
  | some target => do return Assoc.set projection "target" (← projectTarget target)
  | none => return projection

/-! ## Joining -/

def joinedBaseline (ext : Externals) : List Located → Except String (Option (List Point))
  | [] => return some []
  | value :: rest => do
      let geometry ← ext.annotationLineGeometry value.anno
      if geometry.baseline.length < 2 then return none
      return (← joinedBaseline ext rest).map (geometry.baseline ++ ·)

def requireSameProperties (template : Object) : Nat → List Located → Except String Unit
  | _, [] => return ()
  | position, value :: rest => do
      let projection ← structuralPropertyProjection value.anno
      if !Json.same (.obj template) (.obj projection) then
        throw ("annotation " ++ Nat.repr position ++ " has conflicting IIIF properties")
      requireSameProperties template (position + 1) rest

def mergeLocatedAnnotations (ext : Externals) (draft : AnnotationDraft) (values : List Located)
    (granularity : String) : Except String Object :=
  match values with
  | first :: other :: others => do
      let projection ← structuralPropertyProjection first.anno
      requireSameProperties projection 2 (other :: others)
      let texts := values.map fun value => Go.trimSpace value.text
      let inputIDs := values.map fun value => Go.trimSpace value.id
      let mergedID ← annotationID ext draft.pageID (String.intercalate nul inputIDs)
      let merged ← deriveTextAnnotation ext first.anno mergedID granularity draft.identity.canvasURI
        (annotationUnion values) (Go.join texts)
      if granularity = "line" then
        let baseline ← joinedBaseline ext values
        return replaceLineGeometry merged [] (baseline.getD [])
      else return merged
  | _ => throw "at least two annotations are required"

/-- The words of the lines to join either all match their lines or are all missing. -/
def requireJoinableLines (wordsByLine : List (String × List PositionedWord)) (lines : List Located) :
    Except String Unit := do
  let views := lines.map fun line => (line, wordsOfLine wordsByLine line.id)
  if views.any fun view => view.2 ≠ [] ∧ !lineAndWordsMatch (Go.fields view.1.text) view.2 then
    throw "line and word annotations must be synchronized before joining"
  if (views.any fun view => view.2 ≠ []) ∧ (views.any fun view => view.2 = []) then
    throw "selected lines must either all have word annotations or none"

def joinedLines (ext : Externals) (draft : AnnotationDraft) (ids : List String) :
    Except String (List Json) := do
  let lines ← draft.annotations ids "line"
  requireJoinableLines (assignSpatialWordsToLines draft.items none) lines
  let merged ← mergeLocatedAnnotations ext draft lines "line"
  let remove := lines.map Located.index
  if draft.hasIDOutside (annStringValue merged "id") remove then
    throw "joined annotation id already exists"
  return replaceDraftItems draft.items remove (remove.foldl min draft.items.length) [.obj merged]

def joinDraftLines (ext : Externals) (draft : AnnotationDraft) (ids : List String) :
    Except Refusal (List Json) :=
  refusing draft.items (joinedLines ext draft ids)

/-- The lines that own selected words; they must own no others. -/
def affectedLines (wordsByLine : List (String × List PositionedWord)) (selected : List String) :
    Except String (List String) := do
  let touched := wordsByLine.filter fun line => line.2.any fun word =>
    annStringValue word.anno "id" ∈ selected
  if touched.any fun line => line.2.any fun word => annStringValue word.anno "id" ∉ selected then
    throw "all words in an affected line must be selected"
  return touched.map (·.1)

/-- The line that joined words form, with the items it replaces and where it goes. -/
structure JoinedLine where
  merged : Object
  remove : List Nat
  insertAt : Nat

def joinedLine (ext : Externals) (draft : AnnotationDraft) (words : List Located)
    (affectedIDs : List String) : Except String JoinedLine :=
  match words, affectedIDs with
  | words, [lineID] => do
      let line ← draft.annotation lineID "line"
      let merged ← deriveTextAnnotation ext line.anno lineID "line" draft.identity.canvasURI
        (annotationUnion words) (normalizedAnnotationTexts words)
      return ⟨merged, [line.index], line.index⟩
  | words, affectedIDs => do
      let lines ← affectedIDs.mapM fun lineID => draft.annotation lineID "line"
      let remove := lines.map Located.index
      let merged ← mergeLocatedAnnotations ext draft words "line"
      return ⟨merged, remove, remove.foldl min ((words.head?.map Located.index).getD 0)⟩

def joinedWords (ext : Externals) (draft : AnnotationDraft) (ids : List String) :
    Except String (List Json) := do
  let words ← draft.annotations ids "word"
  if words.any fun word => (Go.fields word.text).length ≠ 1 then
    throw "word annotations must each contain exactly one text token"
  let selected := (words.map Located.id).dedup
  let affectedIDs ← affectedLines (assignSpatialWordsToLines draft.items none) selected
  let words := sortWithinLine words
  let joined ← joinedLine ext draft words affectedIDs
  let mergedID := annStringValue joined.merged "id"
  if draft.hasIDOutside mergedID joined.remove then throw "joined annotation id already exists"
  let candidateItems :=
    replaceDraftItems draft.items joined.remove joined.insertAt [.obj joined.merged]
  let ownedWords := wordsOfLine (assignSpatialWordsToLines candidateItems none) mergedID
  if ownedWords.length ≠ selected.length ∨ ownedWords.any fun word => word.id ∉ selected then
    throw "joined line must own exactly the selected words"
  let named := setAnnotationText joined.merged (normalizedAnnotationTexts ownedWords)
  return replaceDraftItems draft.items joined.remove joined.insertAt [.obj named]

def joinDraftWordsIntoLine (ext : Externals) (draft : AnnotationDraft) (ids : List String) :
    Except Refusal (List Json) :=
  refusing draft.items (joinedWords ext draft ids)

/-! ## Requests -/

/-- The structural requests of an editor. -/
inductive StructuralEdit where
  | splitLineIntoWords (lineID : String) (words : List String)
  | splitPageIntoWords
  | splitLineIntoTwo (lineID : String) (splitAtWord : Int)
  | joinLines (ids : List String)
  | joinWordsIntoLine (ids : List String)

def StructuralEdit.run (ext : Externals) (draft : AnnotationDraft) :
    StructuralEdit → Except Refusal (List Json)
  | splitLineIntoWords lineID words => splitDraftLineIntoWords ext draft lineID words
  | splitPageIntoWords => splitDraftPageIntoWords ext draft
  | splitLineIntoTwo lineID splitAtWord => splitDraftLineIntoTwo ext draft lineID splitAtWord
  | joinLines ids => joinDraftLines ext draft ids
  | joinWordsIntoLine ids => joinDraftWordsIntoLine ext draft ids

end Scribe.Server
