import Scribe.Data.Attempt
import Scribe.Data.GoText
import Scribe.Data.Slices
import Mathlib.Algebra.Order.Ring.Nat

/-! The bounded decoder of hOCR documents.

The decoder keeps a stack of frames with a pointer into the tree it builds and a text
buffer for each word. Children are kept in growing slices and the stack is one too, so
a pointer or a buffer may be left behind in an old array; the model keeps the arrays.
The tokens are those that `encoding/xml` delivers, and how its input ends. By how much
`append` enlarges a full slice depends on the element size and on the release of Go;
the model leaves it open.
-/

set_option autoImplicit false

namespace Scribe.Hocr

open Attempt (refuse)
open Slices (Slice Memory)

def maxHOCRBytes : Nat := 10 * 2 ^ 20

def maxHOCRDepth : Nat := 128

def maxHOCRElements : Nat := 10000 * 8

def maxHOCRAttributesPerElement : Nat := 64

def maxHOCRAttributeBytes : Nat := 64 * 2 ^ 10

def maxHOCRWordTextBytes : Nat := 4 * 2 ^ 10

structure Name where
  space : String
  localName : String
  deriving DecidableEq

structure Attr where
  name : Name
  value : String
  deriving DecidableEq

inductive Token where
  | startElement (name : Name) (attrs : List Attr)
  | charData (text : String)
  | endElement
  /-- A comment, a directive or a processing instruction. -/
  | other
  deriving DecidableEq

/-- An element as a cell of memory. -/
structure XMLElement where
  name : Name
  attrs : List Attr
  content : String
  children : Slice
  deriving DecidableEq

def XMLElement.zero : XMLElement := ⟨⟨"", ""⟩, [], "", Slice.nil⟩

def hasClass (attrs : List Attr) (className : String) : Bool :=
  attrs.any fun attr => attr.name.localName = "class" && (Go.fields attr.value).any (· = className)

inductive Stop where
  | error (message : String)
  | panic (message : String)
  deriving DecidableEq

inductive Pointer where
  /-- The variable `root`. -/
  | root
  | slot (array index : Nat)
  deriving DecidableEq

/-- A text buffer that remembers where it stood at its first write. -/
structure Builder where
  addr : Option (Nat × Nat)
  text : String
  deriving DecidableEq

/-- A write to a buffer at an address: the buffer must not have been copied since its first
write. -/
def Builder.write (builder : Builder) (address : Nat × Nat) (text : String) : Except Stop Builder :=
  if builder.addr.all (· = address) then pure ⟨some address, builder.text ++ text⟩
  else throw (.panic "strings: illegal use of non-zero Builder copied by value")

structure Frame where
  element : Pointer
  captureText : Bool
  isLine : Bool
  content : Builder
  deriving DecidableEq

/-- The stack of open elements, the innermost last, with the array it lives in. -/
structure Frames where
  array : Nat
  cap : Nat
  items : List Frame
  deriving DecidableEq

/-- `append` to the stack. The frames of a full stack are copied to an array with room for one more
at least. -/
def Frames.push (grow : Nat → Nat) (frames : Frames) (frame : Frame) : Frames :=
  if frames.items.length < frames.cap then { frames with items := frames.items ++ [frame] }
  else
    let cap := max (frames.items.length + 1) (grow frames.cap)
    ⟨frames.array + 1, cap, frames.items ++ [frame]⟩

/-- The capacity that `append` gives to a full slice of a capacity. -/
structure Growth where
  children : Nat → Nat
  frames : Nat → Nat

structure Decoder where
  root : XMLElement
  arrays : Memory XMLElement
  frames : Frames
  elementCount : Nat
  haveRoot : Bool
  rootComplete : Bool

def Decoder.start : Decoder := ⟨XMLElement.zero, [], ⟨0, 16, []⟩, 0, false, false⟩

namespace Decoder

def load (decoder : Decoder) : Pointer → XMLElement
  | .root => decoder.root
  | .slot array index => (Slices.read decoder.arrays array index).getD XMLElement.zero

def store (decoder : Decoder) (element : XMLElement) : Pointer → Decoder
  | .root => { decoder with root := element }
  | .slot array index => { decoder with arrays := Slices.write decoder.arrays array index element }

def attributeBytes (attrs : List Attr) : Nat :=
  (attrs.map fun attr => attr.name.space.utf8ByteSize + attr.name.localName.utf8ByteSize +
    attr.value.utf8ByteSize).sum

def place (grow : Nat → Nat) (element : XMLElement) (decoder : Decoder) :
    Except Stop (Pointer × Decoder) :=
  match decoder.frames.items.getLast? with
  | none => do
    refuse (decoder.haveRoot = true) (.error "failed to parse XML: multiple root elements")
    pure (.root, { decoder with root := element, haveRoot := true })
  | some frame =>
    let parent := decoder.load frame.element
    let (arrays, children) := Slices.append grow XMLElement.zero decoder.arrays parent.children element
    pure (.slot children.array (children.len - 1),
      { decoder with arrays }.store { parent with children } frame.element)

def startElement (growth : Growth) (name : Name) (attrs : List Attr) (decoder : Decoder) :
    Except Stop Decoder := do
  refuse (decoder.rootComplete = true ∨ maxHOCRDepth < decoder.frames.items.length + 1)
    (.error "hOCR XML exceeds structural limits")
  refuse (maxHOCRElements < decoder.elementCount + 1 ∨ maxHOCRAttributesPerElement < attrs.length)
    (.error "hOCR XML exceeds structural limits")
  refuse (maxHOCRAttributeBytes < attributeBytes attrs) (.error "hOCR XML exceeds attribute limits")
  let (pointer, decoder) ← place growth.children ⟨name, attrs, "", Slice.nil⟩
    { decoder with elementCount := decoder.elementCount + 1 }
  let captureText := hasClass (decoder.load pointer).attrs "ocrx_word"
  let isLine := hasClass (decoder.load pointer).attrs "ocr_line"
  refuse (captureText = true ∧ (decoder.frames.items.any (·.captureText)) = true)
    (.error "hOCR contains nested word elements")
  refuse (isLine = true ∧ (decoder.frames.items.any (·.isLine)) = true)
    (.error "hOCR contains nested line elements")
  pure { decoder with
    frames := decoder.frames.push growth.frames ⟨pointer, captureText, isLine, ⟨none, ""⟩⟩ }

def wordTextMessage : String := "hOCR word text exceeds " ++ Nat.repr maxHOCRWordTextBytes ++ " bytes"

/-- Character data goes to the buffer of every open word. -/
def writeText (array : Nat) (text : String) : (index : Nat) → List Frame → Except Stop (List Frame)
  | _, [] => pure []
  | index, frame :: rest =>
    if frame.captureText then do
      refuse (maxHOCRWordTextBytes < frame.content.text.utf8ByteSize + text.utf8ByteSize)
        (.error wordTextMessage)
      let content ← frame.content.write (array, index) text
      let others ← writeText array text (index + 1) rest
      pure ({ frame with content } :: others)
    else do
      let others ← writeText array text (index + 1) rest
      pure (frame :: others)

def charData (text : String) (decoder : Decoder) : Except Stop Decoder :=
  if decoder.frames.items = [] then do
    refuse (Go.trimSpace text ≠ "") (.error "failed to parse XML: text outside root element")
    pure decoder
  else do
    let items ← writeText decoder.frames.array text 0 decoder.frames.items
    pure { decoder with frames := { decoder.frames with items } }

def fill (frame : Frame) (decoder : Decoder) : Decoder :=
  if frame.captureText then
    decoder.store { decoder.load frame.element with content := frame.content.text } frame.element
  else decoder

def endElement (decoder : Decoder) : Except Stop Decoder :=
  match decoder.frames.items.getLast? with
  | none => throw (.error "failed to parse XML: unexpected closing element")
  | some frame =>
    let decoder := decoder.fill frame
    let items := decoder.frames.items.dropLast
    pure { decoder with
      frames := { decoder.frames with items }
      rootComplete := decoder.rootComplete || items.isEmpty }

def step (growth : Growth) (decoder : Decoder) : Token → Except Stop Decoder
  | .startElement name attrs => decoder.startElement growth name attrs
  | .charData text => decoder.charData text
  | .endElement => decoder.endElement
  | .other => pure decoder

end Decoder

inductive Tree where
  | node (name : Name) (attrs : List Attr) (content : String) (children : List Tree)

/-- The tree under an element, down to a depth. -/
def readTree (arrays : Memory XMLElement) : (depth : Nat) → XMLElement → Tree
  | 0, element => .node element.name element.attrs element.content []
  | depth + 1, element =>
    .node element.name element.attrs element.content
      ((Slices.contents arrays element.children).map (readTree arrays depth))

/-- The tokens of the input and the decoder's error, if its input does not simply end. -/
def decodeBoundedHOCR (growth : Growth) (hocrXML : String) (tokens : List Token)
    (failure : Option String) : Except Stop Tree := do
  refuse (maxHOCRBytes < hocrXML.utf8ByteSize)
    (.error ("hOCR exceeds " ++ Nat.repr maxHOCRBytes ++ " bytes"))
  let decoder ← tokens.foldlM (Decoder.step growth) Decoder.start
  match failure with
  | some cause => throw (.error ("failed to parse XML: " ++ cause))
  | none => do
    refuse (decoder.frames.items ≠ []) (.error "failed to parse XML: unexpected end of input")
    pure (readTree decoder.arrays maxHOCRDepth decoder.root)

end Scribe.Hocr
