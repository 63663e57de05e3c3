import Scribe.Iiif.MediaFragment

/-! Annotations as the server reads and rewrites them.

An annotation is a JSON object. The functions here read its text, Canvas and pixel
box, and derive an annotation from a template by changing only those fields; every
other property of the template is kept.
-/

set_option autoImplicit false

namespace Scribe.Server

open Iiif

/-- A property as text. Numbers carry their literal. -/
def annStringValue (anno : Object) (key : String) : String :=
  match Json.field anno key with
  | .str text => text
  | .num literal => literal
  | _ => ""

def isGranularity (anno : Object) (granularity : String) : Bool :=
  Go.equalFold (Go.trimSpace (annStringValue anno "textGranularity")) granularity

def isTextualBody (body : Object) : Bool :=
  Go.equalFold (Go.trimSpace (annStringValue body "type")) "TextualBody"

def extractCanvasURI (anno : Object) : String :=
  let on := Go.trimSpace (annStringValue anno "on")
  let on := if on = "" then targetCanvas (Json.field anno "target") else on
  if on = "" then "" else (Go.cut on '#').1

def extractFragment (anno : Object) : String :=
  match targetPixelXYWH (Json.field anno "target") with
  | .ok (some value) => value
  | _ => ""

/-- The first nonempty value among an annotation's bodies. -/
def extractAnnotationText (anno : Object) : String :=
  match Json.field anno "body" with
  | .obj body => Go.trimSpace (annStringValue body "value")
  | .arr bodies =>
      ((bodies.map fun entry => Go.trimSpace (annStringValue entry.toObject "value")).find?
        (· ≠ "")).getD ""
  | _ => ""

/-! ## Boxes -/

structure Box where
  x1 : Nat
  y1 : Nat
  x2 : Nat
  y2 : Nat
  deriving DecidableEq, Repr

def parseRoundedXYWH (fragment : String) : Except String (List Nat) := do
  let fragment := Go.trimSpace fragment
  let fragment :=
    if Go.hasPrefix fragment "pixel:" then Go.trimSpace (Go.trimPrefix fragment "pixel:") else fragment
  if Go.hasPrefix fragment "percent:" then
    throw ("invalid xywh fragment " ++ Go.quote fragment ++ ": percent coordinates are not supported")
  let parts := Go.split fragment ','
  if parts.length ≠ 4 then throw ("invalid xywh fragment " ++ Go.quote fragment)
  parts.mapM fun part =>
    match (Number.readFloat (Go.trimSpace part).toList).bind
      (Number.roundedBelow maxPixelCoordinate) with
    | some value => pure value
    | none => throw ("invalid xywh fragment " ++ Go.quote fragment)

/-- Read `x,y,w,h` as corners. -/
@[irreducible] def parseXYWH (fragment : String) : Except String Box := do
  let outside :=
    "invalid xywh fragment " ++ Go.quote fragment ++ ": geometry is outside processing limits"
  match ← parseRoundedXYWH fragment with
  | [x, y, w, h] =>
      if w = 0 ∨ h = 0 ∨ x + w > maxPixelCoordinate ∨ y + h > maxPixelCoordinate then throw outside
      else return ⟨x, y, x + w, y + h⟩
  | _ => throw outside

def annotationBox (anno : Object) : Except String Box := parseXYWH (extractFragment anno)

def formatXYWH (box : Box) : String :=
  String.intercalate "," [Nat.repr box.x1, Nat.repr box.y1,
    Nat.repr (max 1 (box.x2 - box.x1)), Nat.repr (max 1 (box.y2 - box.y1))]

/-! ## Updates of the first matching entry -/

def updateFirst (update : Json → Option Json) : List Json → Option (List Json)
  | [] => none
  | entry :: rest => match update entry with
      | some updated => some (updated :: rest)
      | none => (updateFirst update rest).map (entry :: ·)

def supplementingBody (text : String) : Json :=
  .obj [("type", .str "TextualBody"), ("purpose", .str "supplementing"), ("format", .str "text/plain"),
    ("value", .str text)]

def setBody (value : String) : Json → Option Json
  | .obj body =>
      if isTextualBody body then some (.obj (Assoc.set body "value" (.str (Go.trimSpace value))))
      else none
  | _ => none

def setAnnotationText (anno : Object) (value : String) : Object :=
  let replaced := match Json.field anno "body" with
    | .arr bodies => match updateFirst (setBody value) bodies with
        | some bodies => .arr bodies
        | none => .arr (bodies ++ [supplementingBody (Go.trimSpace value)])
    | .obj body => (setBody value (.obj body)).getD (.arr [supplementingBody (Go.trimSpace value)])
    | _ => .arr [supplementingBody (Go.trimSpace value)]
  Assoc.set anno "body" replaced

def setMissing (object : Object) (key : String) (value : Json) : Object :=
  if Json.field object key = .null then Assoc.set object key value else object

def setTextualValue (body : Object) (text : String) : Object :=
  let body := Assoc.set body "type" (.str "TextualBody")
  let body := Assoc.set body "value" (.str text)
  setMissing (setMissing body "purpose" (.str "supplementing")) "format" (.str "text/plain")

def replaceTextualBody (text : String) : Json → Option Json
  | .obj body => if isTextualBody body then some (.obj (setTextualValue body text)) else none
  | _ => none

def textBodyWithValue (raw : Json) (text : String) : Json :=
  let textual := .obj (setTextualValue [] text)
  match raw with
  | .obj body => (replaceTextualBody text (.obj body)).getD (.arr [.obj body, textual])
  | .arr bodies => match updateFirst (replaceTextualBody text) bodies with
      | some bodies => .arr bodies
      | none => .arr (bodies ++ [textual])
  | _ => .arr [textual]

def eraseIdentity (object : Object) : Object := Assoc.erase (Assoc.erase object "id") "@id"

mutual
def clearFirstTextualBodyIdentity : Json → Option Json
  | .obj body => if isTextualBody body then some (.obj (eraseIdentity body)) else none
  | .arr entries => (clearFirstInBodies entries).map .arr
  | _ => none

def clearFirstInBodies : List Json → Option (List Json)
  | [] => none
  | entry :: rest => match clearFirstTextualBodyIdentity entry with
      | some cleared => some (cleared :: rest)
      | none => (clearFirstInBodies rest).map (entry :: ·)
end

mutual
def clearFirstFragmentIdentity : Json → Option Json
  | .obj selector =>
      if Go.equalFold (Go.trimSpace (annStringValue selector "type")) fragmentSelectorType then
        match mediaFragmentPixelXYWH (stringValue (Json.field selector "value")) with
        | .ok (some _) => some (.obj (eraseIdentity selector))
        | _ => none
      else none
  | .arr entries => (clearFirstInSelectors entries).map .arr
  | _ => none

def clearFirstInSelectors : List Json → Option (List Json)
  | [] => none
  | entry :: rest => match clearFirstFragmentIdentity entry with
      | some cleared => some (cleared :: rest)
      | none => (clearFirstInSelectors rest).map (entry :: ·)
end

def updateField (object : Object) (key : String) (update : Json → Option Json) : Object :=
  match update (Json.field object key) with
  | some value => Assoc.set object key value
  | none => object

def clearTargetIdentity : Json → Option Json
  | .obj target =>
      some (.obj (updateField (eraseIdentity target) "selector" clearFirstFragmentIdentity))
  | _ => none

def clearMutableTargetResourceIDs (anno : Object) : Object :=
  updateField anno "target" clearTargetIdentity

def clearMutableEmbeddedResourceIDs (anno : Object) : Object :=
  clearMutableTargetResourceIDs (updateField anno "body" clearFirstTextualBodyIdentity)

/-! ## Derived annotations -/

def maxJSONNestingDepth : Nat := 128

/-- A deep copy by encoding and decoding: the identity up to the nesting limit. -/
def cloneAnnotation (anno : Object) : Except String Object :=
  if (Json.obj anno).nesting > maxJSONNestingDepth then
    .error ("decode annotation template: json nesting exceeds " ++
      Nat.repr maxJSONNestingDepth ++ " levels")
  else .ok anno

/-- Carry an SVG selector from the old box to the new one. -/
def mapSvgSelector (ext : Externals) (old box : Box) : Json → Except String Json
  | .obj selector =>
      if Json.field selector "type" = .str "SvgSelector" then do
        let mapped ← ext.mapSVGPoints (stringValue (Json.field selector "value")) fun p =>
          ⟨box.x1 + Number.scaleBinary64 (p.x - old.x1) ((box.x2 : Int) - box.x1)
            ((old.x2 : Int) - old.x1), box.y1 + Number.scaleBinary64 (p.y - old.y1)
              ((box.y2 : Int) - box.y1) ((old.y2 : Int) - old.y1)⟩
        return .obj (Assoc.set selector "value" (.str mapped))
      else return .obj selector
  | selector => return selector

def targetWithFragment (ext : Externals) (raw : Json) (canvasURI : String) (box : Box) :
    Except String Object := do
  let oldBox := annotationBox [("target", raw)]
  let target ← match replaceTargetPixelXYWH ext raw canvasURI (formatXYWH box) with
    | .ok target => pure target
    | .error message => throw ("replace annotation target geometry: " ++ message)
  match oldBox with
  | .error _ => return target
  | .ok old =>
      match Json.field target "selector" with
      | .arr selectors => do
          let selectors ← selectors.mapM (mapSvgSelector ext old box)
          return Assoc.set target "selector" (.arr selectors)
      | .obj selector => do
          let selector ← mapSvgSelector ext old box (.obj selector)
          return Assoc.set target "selector" selector
      | _ => return target

/-- Derive an annotation from a template by changing its structural fields only. -/
def deriveTextAnnotation (ext : Externals) (template : Object)
    (id granularity canvasURI : String) (box : Box) (text : String) : Except String Object := do
  let anno ← cloneAnnotation template
  let anno := Assoc.set anno "id" (.str id)
  let anno := Assoc.set anno "type" (.str "Annotation")
  let anno := Assoc.set anno "textGranularity" (.str granularity)
  let anno := setMissing anno "motivation" (.str "supplementing")
  let anno := Assoc.set anno "body" (textBodyWithValue (Json.field anno "body") (Go.trimSpace text))
  let target ← targetWithFragment ext (Json.field anno "target") canvasURI box
  return clearMutableEmbeddedResourceIDs (Assoc.set anno "target" (.obj target))

def retargetExistingWord (ext : Externals) (word : Object) (canvasURI : String) (box : Box) :
    Except String Object := do
  let current : Bool := match annotationBox word with
    | .ok current => current = box && extractCanvasURI word = Go.trimSpace canvasURI
    | .error _ => false
  if current then return word
  else
    let target ← targetWithFragment ext (Json.field word "target") canvasURI box
    return clearMutableTargetResourceIDs (Assoc.set word "target" (.obj target))

def updatedRetainedWord (ext : Externals) (template : Object) (id canvasURI : String) (box : Box)
    (text : String) : Except String Object := do
  let word ← cloneAnnotation template
  let word := Assoc.set word "id" (.str id)
  let word := Assoc.set word "type" (.str "Annotation")
  let word := Assoc.set word "textGranularity" (.str "word")
  let word := setMissing word "motivation" (.str "supplementing")
  let word :=
    if extractAnnotationText word ≠ Go.trimSpace text then
      let word :=
        Assoc.set word "body" (textBodyWithValue (Json.field word "body") (Go.trimSpace text))
      updateField word "body" clearFirstTextualBodyIdentity
    else word
  retargetExistingWord ext word canvasURI box

/-! ## Identifiers -/

structure PageIdentity where
  publicBaseURL : String
  itemImageID : Nat
  canvasURI : String

def longestChildSuffix : String :=
  "/item-image-18446744073709551615/canvas/page-1/annotations/items/0123456789abcdef0123456789abcdef"

def maxAnnotationIDBytes : Nat := 512

def validHTTPBase (ext : Externals) (raw : String) : Except String String := do
  let raw := Go.trimRight (Go.trimSpace raw) '/'
  requireResourceURL ext raw "public base url" false
  if raw.utf8ByteSize + longestChildSuffix.utf8ByteSize > maxAnnotationIDBytes then
    throw ("public base url is too long for the " ++ Nat.repr maxAnnotationIDBytes ++
      "-byte canonical resource id contract")
  return raw

def annotationPageID (ext : Externals) (publicBaseURL : String) (itemImageID : Nat) :
    Except String String := do
  let base ← validHTTPBase ext publicBaseURL
  if itemImageID = 0 then throw "item image id is required"
  return base ++ "/item-image-" ++ Nat.repr itemImageID ++ "/canvas/page-1/annotations"

def annotationID (ext : Externals) (pageID seed : String) : Except String String := do
  requireResourceURL ext pageID "annotation page id" false
  let seed := Go.trimSpace seed
  if seed = "" then throw "annotation id seed is required"
  return Go.trimRight pageID '/' ++ "/items/" ++ ext.digest seed

def nul : String := String.singleton (Char.ofNat 0)

def structuralWordID (ext : Externals) (pageID lineID : String) (wordIndex : Nat) :
    Except String String :=
  annotationID ext pageID (lineID ++ nul ++ "word" ++ nul ++ Nat.repr (wordIndex + 1))

/-! ## Annotations with their place on the page -/

structure Located where
  anno : Object
  index : Nat
  box : Box
  deriving DecidableEq

def Located.id (located : Located) : String := annStringValue located.anno "id"

def Located.text (located : Located) : String := extractAnnotationText located.anno

end Scribe.Server
