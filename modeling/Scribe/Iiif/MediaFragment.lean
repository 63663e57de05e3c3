import Scribe.Data.GoText
import Scribe.Data.Json
import Scribe.Data.Number

/-! Media fragments and annotation targets.

A target names one Canvas and at most one pixel rectangle, written as the `xywh`
dimension of a media fragment. Replacing the rectangle keeps every other
dimension, selector and target property.
-/

set_option autoImplicit false

namespace Scribe.Iiif

def maxPixelCoordinate : Nat := 2 ^ 31 - 1

structure Point where
  x : Int
  y : Int
  deriving DecidableEq, Repr

structure LineGeometry where
  baseline : List Point
  polygon : List Point

/-- Library services that the model leaves open: URL syntax, the identifier digest
(the first sixteen bytes of SHA-256 in hexadecimal) and the SVG line geometry. -/
structure Externals where
  resourceURL : (raw : String) → (allowQuery : Bool) → Bool
  digest : String → String
  mapSVGPoints : String → (Point → Point) → Except String String
  annotationLineGeometry : Object → Except String LineGeometry
  splitBaselineX : List Point → Int → List Point × List Point

def requireResourceURL (ext : Externals) (raw label : String) (allowQuery : Bool) :
    Except String Unit :=
  if ext.resourceURL (Go.trimSpace raw) allowQuery then .ok ()
  else .error (label ++ " must be an absolute HTTP(S) URL")

def requireHTTPURL (ext : Externals) (raw label : String) : Except String Unit :=
  requireResourceURL ext raw label true

def stringValue : Json → String
  | .str text => text
  | _ => ""

/-! ## Media fragments -/

def mediaFragmentParameters (raw : String) : List String :=
  let raw := Go.trimSpace (Go.trimPrefix (Go.trimSpace raw) "#")
  if raw = "" then [] else Go.split raw '&'

def xywhParameter? (parameter : String) : Option String :=
  match Go.cut parameter '=' with
  | (key, value, true) => if Go.trimSpace key = "xywh" then some value else none
  | _ => none

def multipleParameters : String := "media fragment contains multiple xywh parameters"

def mediaFragmentPixelXYWH (raw : String) : Except String (Option String) :=
  match (mediaFragmentParameters raw).filterMap xywhParameter? with
  | [] => .ok none
  | [value] =>
      if Go.trimSpace value = "" then .error "media fragment xywh parameter is empty"
      else .ok (some (Go.trimSpace value))
  | _ => .error multipleParameters

def parsePixelXYWH (raw : String) : Except String (List Nat) := do
  let raw := Go.trimSpace raw
  let raw := if Go.hasPrefix raw "pixel:" then Go.trimSpace (Go.trimPrefix raw "pixel:") else raw
  if Go.hasPrefix raw "percent:" then
    throw "percent coordinates are not supported for canonical OCR geometry"
  let parts := Go.split raw ','
  if parts.length ≠ 4 then throw "xywh must contain four coordinates"
  let values ← parts.zipIdx.mapM fun (part, index) =>
    match Number.readNat (2 ^ 64) (Go.trimSpace part).toList with
    | some value => pure value
    | none => throw ("xywh coordinate " ++ Nat.repr (index + 1) ++ " must be a non-negative integer")
  match values with
  | [x, y, w, h] =>
      if w = 0 ∨ h = 0 then throw "xywh width and height must be positive"
      for (value, index) in values.zipIdx do
        if value > maxPixelCoordinate then
          throw ("xywh coordinate " ++ Nat.repr (index + 1) ++ " exceeds " ++
            Nat.repr maxPixelCoordinate)
      if w > maxPixelCoordinate - x ∨ h > maxPixelCoordinate - y then
        throw ("xywh extent exceeds " ++ Nat.repr maxPixelCoordinate)
      return values
  | _ => throw "xywh must contain four coordinates"

def replaceParameters (xywh : String) : (replaced : Bool) → List String →
      Except String (Bool × List String)
  | replaced, [] => .ok (replaced, [])
  | replaced, parameter :: rest =>
      match Go.cut parameter '=' with
      | (key, existing, true) =>
          if Go.trimSpace key ≠ "xywh" then do
            let (replaced, rest) ← replaceParameters xywh replaced rest
            return (replaced, parameter :: rest)
          else if replaced then .error multipleParameters
          else do
            let value := Go.trimSpace xywh
            let value :=
              if Go.hasPrefix (Go.trimSpace existing) "pixel:" ∧ !Go.hasPrefix value "pixel:" then
                "pixel:" ++ value
              else value
            let (replaced, rest) ← replaceParameters xywh true rest
            return (replaced, (key ++ "=" ++ value) :: rest)
      | _ => do
          let (replaced, rest) ← replaceParameters xywh replaced rest
          return (replaced, parameter :: rest)

def replaceMediaFragmentPixelXYWH (raw xywh : String) : Except String String := do
  let _ ← parsePixelXYWH xywh
  let (replaced, parameters) ← replaceParameters xywh false (mediaFragmentParameters raw)
  let parameters := if replaced then parameters else parameters ++ ["xywh=" ++ Go.trimSpace xywh]
  return String.intercalate "&" parameters

def removeMediaFragmentPixelXYWH (raw : String) : Except String String :=
  let parameters := mediaFragmentParameters raw
  if 1 < (parameters.filterMap xywhParameter?).length then .error multipleParameters
  else .ok (String.intercalate "&" (parameters.filter fun parameter =>
    (xywhParameter? parameter).isNone))

/-! ## Targets -/

def fragmentSelectorType : String := "FragmentSelector"

def mediaFragsURI : String := "http://www.w3.org/TR/media-frags/"

def isCanvasReference (value : Object) : Bool :=
  stringValue (Json.field value "type") = "Canvas" ∧
    Go.trimSpace (stringValue (Json.field value "id")) ≠ "" ∧ Json.field value "source" = .null

/-- The Canvas a target names. Only a target list of one element is followed. -/
def targetCanvas : Json → String
  | .str target => Go.trimSpace (Go.cut (Go.trimSpace target) '#').1
  | .obj target =>
      match Json.field target "source" with
      | .str source => Go.trimSpace source
      | .obj source => Go.trimSpace (stringValue (Json.field source "id"))
      | _ => if isCanvasReference target then Go.trimSpace (stringValue (Json.field target "id"))
        else ""
  | .arr [target] => targetCanvas target
  | _ => ""

mutual
/-- The rectangles of the fragment selectors below a selector value, in order. -/
def selectorRectangles : Json → Except String (List String)
  | .obj selector =>
      if Go.equalFold (Go.trimSpace (stringValue (Json.field selector "type")))
          fragmentSelectorType then do
        let found ← mediaFragmentPixelXYWH (stringValue (Json.field selector "value"))
        return found.toList
      else .ok []
  | .arr entries => selectorListRectangles entries
  | _ => .ok []

def selectorListRectangles : List Json → Except String (List String)
  | [] => .ok []
  | entry :: rest => do
      let here ← selectorRectangles entry
      let after ← selectorListRectangles rest
      return here ++ after
end

def multipleSelectors : String := "target contains multiple xywh FragmentSelectors"

def selectorPixelXYWH (raw : Json) : Except String (Option String) := do
  match ← selectorRectangles raw with
  | [] => return none
  | [xywh] => return some xywh
  | _ => throw multipleSelectors

def targetPixelXYWH : Json → Except String (Option String)
  | .str target =>
      match Go.cut (Go.trimSpace target) '#' with
      | (_, fragment, true) => mediaFragmentPixelXYWH fragment
      | _ => .ok none
  | .obj target => selectorPixelXYWH (Json.field target "selector")
  | .arr [] => .ok none
  | .arr [target] => targetPixelXYWH target
  | .arr _ => .error "canonical annotation must have exactly one target"
  | _ => .ok none

def setTargetCanvas (target : Object) (canvasURI : String) : Object :=
  match Json.field target "source" with
  | .obj source =>
      let source := Assoc.set source "id" (.str canvasURI)
      let source :=
        if Json.field source "type" = .null then Assoc.set source "type" (.str "Canvas") else source
      Assoc.set target "source" (.obj source)
  | _ => Assoc.set target "source" (.str canvasURI)

def isFragmentSelector : Json → Bool
  | .obj selector =>
      Go.equalFold (Go.trimSpace (stringValue (Json.field selector "type"))) fragmentSelectorType
  | _ => false

/-- Positions of the spatial selector and of all fragment selectors seen so far. -/
structure SelectorScan where
  spatial : Option Nat
  fragments : List Nat

def scanSelectors : Nat → SelectorScan → List Json → Except String SelectorScan
  | _, seen, [] => .ok seen
  | position, seen, selector :: rest =>
      if !isFragmentSelector selector then scanSelectors (position + 1) seen rest
      else do
        let seen := { seen with fragments := seen.fragments ++ [position] }
        match ← mediaFragmentPixelXYWH (stringValue (Json.field selector.toObject "value")) with
        | none => scanSelectors (position + 1) seen rest
        | some _ =>
            if seen.spatial.isSome then throw multipleSelectors
            else scanSelectors (position + 1) { seen with spatial := some position } rest

/-- The position of the selector to update: the spatial one, or the only fragment
selector. -/
def spatialPosition (selectors : List Json) : Except String (Option Nat) := do
  let seen ← scanSelectors 0 ⟨none, []⟩ selectors
  match seen.spatial, seen.fragments with
  | some position, _ => return some position
  | none, [position] => return some position
  | none, _ => return none

def updateFragmentSelector (selector : Object) (xywh : String) : Except String Object := do
  let updated ← replaceMediaFragmentPixelXYWH (stringValue (Json.field selector "value")) xywh
  let selector := Assoc.set selector "type" (.str fragmentSelectorType)
  let selector := Assoc.set selector "value" (.str updated)
  return if Json.field selector "conformsTo" = .null then
      Assoc.set selector "conformsTo" (.str mediaFragsURI)
    else selector

def newFragmentSelector (value : String) : Json :=
  .obj [("type", .str fragmentSelectorType), ("conformsTo", .str mediaFragsURI), ("value", .str value)]

def replaceSelectorPixelXYWH (target : Object) (xywh : String) : Except String Object := do
  let added := newFragmentSelector ("xywh=" ++ Go.trimSpace xywh)
  match Json.field target "selector" with
  | .obj selector =>
      match ← spatialPosition [.obj selector] with
      | some _ => do
          let selector ← updateFragmentSelector selector xywh
          return Assoc.set target "selector" (.obj selector)
      | none => return Assoc.set target "selector" (.arr [.obj selector, added])
  | .arr selectors =>
      match ← spatialPosition selectors with
      | some position => do
          let selector ← updateFragmentSelector ((selectors[position]?.getD .null).toObject) xywh
          return Assoc.set target "selector" (.arr (selectors.set position (.obj selector)))
      | none => return Assoc.set target "selector" (.arr (selectors ++ [added]))
  | .null => return Assoc.set target "selector" added
  | selector => return Assoc.set target "selector" (.arr [selector, added])

/-- Set a target's Canvas and rectangle. A compact target becomes a specific resource. -/
def replaceTargetPixelXYWH (ext : Externals) (raw : Json) (canvasURI xywh : String) :
    Except String Object := do
  let canvasURI := Go.trimSpace canvasURI
  requireHTTPURL ext canvasURI "canvas uri"
  match raw with
  | .str value =>
      let updated ← replaceMediaFragmentPixelXYWH (Go.cut (Go.trimSpace value) '#').2.1 xywh
      return [("source", .str canvasURI), ("selector", newFragmentSelector updated)]
  | .obj value =>
      let target : Object :=
        if isCanvasReference value then [("type", .str "SpecificResource"), ("source", .obj value)]
        else value
      replaceSelectorPixelXYWH (setTargetCanvas target canvasURI) xywh
  | _ =>
      return [("source", .str canvasURI),
        ("selector", newFragmentSelector ("xywh=" ++ Go.trimSpace xywh))]

end Scribe.Iiif
