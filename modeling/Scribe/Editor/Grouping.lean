import Scribe.Data.Binary64
import Scribe.Data.GoText
import Scribe.Data.IntervalIndex
import Scribe.Data.Json
import Mathlib.Data.List.Perm.Basic
import Mathlib.Data.String.Basic

/-! The rows of the editor.

The editor nests a word under the first line, in the order of the tops of the
boxes, whose vertical band the word's band meets. Two passes find that line with
an index of intervals: one over the lines at least as tall as the word, one over
the others.
-/

set_option autoImplicit false

namespace Scribe.Editor

/-! ## Boxes of annotations -/

structure BBox where
  h : ℚ
  w : ℚ
  x : ℚ
  y : ℚ
  deriving DecidableEq

def trimText (text : String) : String := Text.trim Text.scriptSpace text

mutual
/-- `String(value)`. A number is its literal. -/
def scriptText : Json → String
  | .null => "null"
  | .bool value => if value then "true" else "false"
  | .num literal => literal
  | .str text => text
  | .arr entries => String.intercalate "," (scriptEntries entries)
  | .obj _ => "[object Object]"

/-- The texts that joining an array puts between commas: nothing for null. -/
def scriptEntries : List Json → List String
  | [] => []
  | .null :: rest => "" :: scriptEntries rest
  | entry :: rest => scriptText entry :: scriptEntries rest
end

/-- Whether a value counts as true. Zero does not, whatever its sign and places. -/
def truthy : Json → Bool
  | .null => false
  | .bool value => value
  | .num literal => (literal.toList.takeWhile fun c => c ≠ 'e' ∧ c ≠ 'E').any fun c =>
    c.isDigit ∧ c ≠ '0'
  | .str text => text ≠ ""
  | .arr _ | .obj _ => true

def textOrEmpty (value : Json) : String := if truthy value then scriptText value else ""

def isFragmentSelector : Json → Bool
  | .obj selector => Go.lowersTo (trimText (textOrEmpty (Json.field selector "type")))
    "fragmentselector"
  | _ => false

def mediaFragmentParameters (value : Json) : List String :=
  let raw := Go.trimPrefix (trimText (textOrEmpty value)) "#"
  if raw = "" then [] else Go.split raw '&'

def xywhValue? (parameter : String) : Option String :=
  match Go.cut parameter '=' with
  | (key, value, true) => if trimText key = "xywh" then some (trimText value) else none
  | _ => none

section
variable [Arithmetic]

/-- A number that matches `\d+(?:\.\d+)?`, after a minus sign where one is allowed. -/
def readCoordinate (signed : Bool) (text : String) : Option ℚ :=
  let (negative, chars) := match signed, text.toList with
    | true, '-' :: rest => (true, rest)
    | _, chars => (false, chars)
  let (whole, rest) := chars.span Char.isDigit
  let fraction := rest.drop 1
  if whole = [] then none
  else if rest = [] ∨ rest.head? = some '.' ∧ fraction ≠ [] ∧ fraction.all Char.isDigit then
    let magnitude : ℚ := (Nat.ofDigitChars 10 (whole ++ fraction) 0 : ℚ) / 10 ^ fraction.length
    some (Arithmetic.round (if negative then -magnitude else magnitude))
  else none

/-- Four coordinates, in pixels or marked as percent; without dimensions the mark changes
nothing. -/
def readXYWH (text : String) : Option BBox :=
  let text := if Go.hasPrefix text "pixel:" then Go.trimPrefix text "pixel:"
    else Go.trimPrefix text "percent:"
  match Go.split text ',' with
  | [x, y, w, h] => do
      let x ← readCoordinate true x
      let y ← readCoordinate true y
      let w ← readCoordinate false w
      let h ← readCoordinate false h
      return { h, w, x, y }
  | _ => none

def mediaFragmentGeometry (value : Json) : Except String (Option BBox) :=
  match (mediaFragmentParameters value).filterMap xywhValue? with
  | [] => .ok none
  | [xywh] => match readXYWH xywh with
      | some bbox => .ok (some bbox)
      | none => .error "media fragment contains invalid xywh geometry"
  | _ => .error "media fragment contains multiple xywh parameters"

def fragmentSelectors : Json → List Json
  | .arr selectors => selectors.filter isFragmentSelector
  | selector => [selector].filter isFragmentSelector

/-- The box of the one selector that has a box. -/
def scanFragments : (found : Option BBox) → List Json → Except String (Option BBox)
  | found, [] => .ok found
  | found, fragment :: rest => do
      match ← mediaFragmentGeometry (Json.field fragment.toObject "value") with
      | none => scanFragments found rest
      | some bbox =>
          if found.isSome then throw "target contains multiple xywh FragmentSelectors"
          else scanFragments (some bbox) rest

def spatialFragmentSelector (selector : Json) : Except String (Option BBox) :=
  scanFragments none (fragmentSelectors selector)

def annotationBBox (anno : Object) : BBox :=
  let target := Json.field anno "target"
  let compact := match target with
    | .str text => mediaFragmentGeometry (.str (Go.cut text '#').2.1)
    | _ => .ok none
  match compact with
  | .ok (some bbox) => bbox
  | _ =>
      let selector := match target with
        | .obj target => Json.field target "selector"
        | _ => .null
      match spatialFragmentSelector selector with
      | .ok (some bbox) => bbox
      | _ => { h := 0, w := 0, x := 0, y := 0 }

end

/-! ## Granularity and order -/

def annotationGranularity (anno : Object) : Json :=
  let granularity := Json.field anno "textGranularity"
  if truthy granularity then granularity else .str "line"

def isWordAnnotation (anno : Object) : Bool := annotationGranularity anno = .str "word"

def isLineAnnotation (anno : Object) : Bool := annotationGranularity anno = .str "line"

def idText (anno : Object) : String := textOrEmpty (Json.field anno "id")

def hasId (anno : Object) : Bool :=
  match Json.field anno "id" with
  | .str id => id ≠ ""
  | _ => false

/-- The order of the user's locale: `a` comes before `b`, or the two compare equal. -/
structure Collation where
  le : String → String → Bool
  total : ∀ a b, le a b ∨ le b a
  trans : ∀ a b c, le a b → le b c → le a c

def codePointOrder : Collation where
  le a b := a ≤ b
  total a b := by simpa using le_total a b
  trans a b c := by simpa using le_trans

section
variable [Arithmetic] (collation : Collation)

/-- Top to bottom, then left to right, then by identifier. -/
def readsBefore (left right : Object) : Prop :=
  let a := annotationBBox left
  let b := annotationBBox right
  a.y < b.y ∨ a.y = b.y ∧ (a.x < b.x ∨ a.x = b.x ∧ collation.le (idText left) (idText right))

instance : DecidableRel (readsBefore collation) := fun _ _ => inferInstanceAs (Decidable (_ ∨ _))

def sortedAnnotations (items : List Json) : List Object :=
  ((items.map Json.toObject).filter hasId).insertionSort (readsBefore collation)

def withinLineBefore (left right : Object) : Prop :=
  let a := annotationBBox left
  let b := annotationBBox right
  a.x < b.x ∨ a.x = b.x ∧ (a.y < b.y ∨ a.y = b.y ∧ collation.le (idText left) (idText right))

instance : DecidableRel (withinLineBefore collation) := fun _ _ => inferInstanceAs (Decidable (_ ∨ _))

def sortAnnotationsWithinLine (annotations : List Object) : List Object :=
  annotations.insertionSort (withinLineBefore collation)

end

/-! ## Vertical bands -/

section
variable [Arithmetic]

def annotationsShareLine (left right : Object) : Bool :=
  let a := annotationBBox left
  let b := annotationBBox right
  let overlapTop := max a.y b.y
  let overlapBottom := min (Arithmetic.add a.y a.h) (Arithmetic.add b.y b.h)
  let overlap := max 0 (Arithmetic.sub overlapBottom overlapTop)
  let minHeight := max 1 (min a.h b.h)
  let aCenter := Arithmetic.add a.y (Arithmetic.div a.h 2)
  let bCenter := Arithmetic.add b.y (Arithmetic.div b.h 2)
  Arithmetic.round (45 / 100) ≤ Arithmetic.div overlap minHeight ∨
    |Arithmetic.sub aCenter bCenter| ≤ Arithmetic.mul (max a.h b.h) (Arithmetic.round (45 / 100))

structure VerticalEntry where
  anno : Object
  center : ℚ
  height : ℚ
  order : Nat

def verticalEntry (entry : Object × Nat) : VerticalEntry :=
  let bbox := annotationBBox entry.1
  let height := if 0 < bbox.h then bbox.h else 1
  { anno := entry.1
    center := Arithmetic.add bbox.y (Arithmetic.div height 2)
    height := height
    order := entry.2 }

/-- The two passes: over lines at least as tall as the word, and over shorter ones. -/
inductive Pass where
  | tall
  | short

namespace Pass

def lineReach : Pass → ℚ
  | tall => 1 / 2
  | short => Arithmetic.round (1 / 20)

def wordReach : Pass → ℚ
  | tall => Arithmetic.round (1 / 20)
  | short => 1 / 2

/-- Whether a line takes part in the query of a word, by their heights. -/
def admits : Pass → (line word : ℚ) → Bool
  | tall, line, word => word ≤ line
  | short, line, word => line < word

def before (pass : Pass) (left right : VerticalEntry) : Prop :=
  match pass with
  | tall => right.height < left.height ∨ right.height = left.height ∧ left.order ≤ right.order
  | short => left.height < right.height ∨ left.height = right.height ∧ left.order ≤ right.order

instance (pass : Pass) : DecidableRel pass.before := fun _ _ => by
  cases pass <;> exact inferInstanceAs (Decidable (_ ∨ _))

def linePoint (pass : Pass) (line : VerticalEntry) : IntervalPoint ℚ :=
  let radius := Arithmetic.mul line.height pass.lineReach
  { start := Arithmetic.sub line.center radius
    finish := Arithmetic.add line.center radius
    order := line.order }

/-- Enter the pending lines that the height of a word admits. -/
def enterLines (pass : Pass) (height : ℚ) :
    List VerticalEntry → IntervalOrderIndex ℚ → List VerticalEntry × IntervalOrderIndex ℚ
  | [], index => ([], index)
  | line :: rest, index =>
      if pass.admits line.height height then
        enterLines pass height rest (index.add (pass.linePoint line))
      else (line :: rest, index)

def queryWord (pass : Pass) (index : IntervalOrderIndex ℚ) (word : VerticalEntry) : WithTop Nat :=
  let radius := Arithmetic.mul word.height pass.wordReach
  index.firstIntersecting (Arithmetic.sub word.center radius) (Arithmetic.add word.center radius)

def queryWords (pass : Pass) : (words lines : List VerticalEntry) → IntervalOrderIndex ℚ →
    (result : Nat → WithTop Nat) → Nat → WithTop Nat
  | [], _, _, result => result
  | word :: rest, lines, index, result =>
      let (lines, index) := pass.enterLines word.height lines index
      queryWords pass rest lines index (Function.update result word.order (pass.queryWord index word))

end Pass

/-- The least order of a line that a word's band meets in one pass, for every word by its order. -/
def earliestLineOrders (lines words : List VerticalEntry) (pass : Pass) : Nat → WithTop Nat :=
  pass.queryWords (words.insertionSort pass.before) (lines.insertionSort pass.before)
    (createIntervalOrderIndex (lines.map pass.linePoint)) fun _ => ⊤

end

/-! ## Rows -/

inductive RowGranularity where
  | line
  | word
  deriving DecidableEq

structure EditorRow where
  id : String
  granularity : RowGranularity
  lead : Object
  fields : List Object
  deriving DecidableEq

def wordRow (word : Object) : EditorRow := ⟨idText word, .word, word, [word]⟩

section
variable [Arithmetic]

/-- A loose word joins the last row if its band meets that of the row's first word. -/
def addLooseWord (rows : List EditorRow) (word : Object) : List EditorRow :=
  match rows.getLast? with
  | some row =>
      if annotationsShareLine row.lead word then
        rows.dropLast ++ [{ row with fields := row.fields ++ [word] }]
      else rows ++ [wordRow word]
  | none => rows ++ [wordRow word]

def entriesOf (annotations : List Object) : List VerticalEntry := annotations.zipIdx.map verticalEntry

def lineOrder (lines words : List VerticalEntry) (word : VerticalEntry) : WithTop Nat :=
  min (earliestLineOrders lines words .tall word.order)
    (earliestLineOrders lines words .short word.order)

def looseWords (lines words : List VerticalEntry) : List Object :=
  (words.filter fun word => lineOrder lines words word = ⊤).map (·.anno)

variable (collation : Collation)

def lineRow (lines words : List VerticalEntry) (line : Object × Nat) : EditorRow :=
  let taken := (words.filter fun word => lineOrder lines words word = line.2).map (·.anno)
  let rowWords := sortAnnotationsWithinLine collation taken
  if rowWords = [] then ⟨idText line.1, .line, line.1, [line.1]⟩
  else ⟨idText line.1, .word, line.1, rowWords⟩

def rowBefore (left right : EditorRow) : Prop :=
  let a := annotationBBox left.lead
  let b := annotationBBox right.lead
  a.y < b.y ∨ a.y = b.y ∧ (a.x < b.x ∨ a.x = b.x ∧ collation.le left.id right.id)

instance : DecidableRel (rowBefore collation) := fun _ _ => inferInstanceAs (Decidable (_ ∨ _))

def groupAnnotationsForEditor (items : List Json) : List EditorRow :=
  let annotations := sortedAnnotations collation items
  let lines := annotations.filter isLineAnnotation
  let words := annotations.filter isWordAnnotation
  if words = [] then lines.map fun line => ⟨idText line, .line, line, [line]⟩
  else
    let lineEntries := entriesOf lines
    let wordEntries := entriesOf words
    let rows := lines.zipIdx.map (lineRow collation lineEntries wordEntries)
    let looseWordRows := ((looseWords lineEntries wordEntries).foldl addLooseWord []).map fun row =>
      { row with fields := sortAnnotationsWithinLine collation row.fields }
    (rows ++ looseWordRows).insertionSort (rowBefore collation)

end

end Scribe.Editor
