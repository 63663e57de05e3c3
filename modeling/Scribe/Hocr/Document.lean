import Scribe.Hocr.Decoder
import Mathlib.Data.Nat.Find
import Mathlib.Order.WellFounded

/-! What a sequence of tokens says, apart from the memory of the decoder.

A document is a tree of nodes, and its tokens are read off it. The outline of a
sequence is what the limits of the decoder look at: the open elements with the text
their words have so far. The outline also notes how deep the document was when a word
got its first text, since a text buffer does not survive a move of the stack.
-/

set_option autoImplicit false

namespace Scribe.Hocr

open Attempt (refuse)

def isWord (attrs : List Attr) : Bool := hasClass attrs "ocrx_word"

def isLine (attrs : List Attr) : Bool := hasClass attrs "ocr_line"

/-! ### Documents -/

inductive Node where
  | element (name : Name) (attrs : List Attr) (content : List Node)
  | text (value : String)
  | other

namespace Node

mutual

def tokens : Node → List Token
  | .element name attrs content => .startElement name attrs :: tokensAll content ++ [.endElement]
  | .text value => [.charData value]
  | .other => [.other]

def tokensAll : List Node → List Token
  | [] => []
  | node :: rest => tokens node ++ tokensAll rest

end

mutual

/-- All character data inside a node, at any depth. -/
def textOf : Node → String
  | .element _ _ content => textAll content
  | .text value => value
  | .other => ""

def textAll : List Node → String
  | [] => ""
  | node :: rest => textOf node ++ textAll rest

end

mutual

def trees : Node → List Tree
  | .element name attrs content =>
    [.node name attrs (if isWord attrs then textAll content else "") (treesAll content)]
  | .text _ => []
  | .other => []

def treesAll : List Node → List Tree
  | [] => []
  | node :: rest => trees node ++ treesAll rest

end

mutual

def depth : Node → Nat
  | .element _ _ content => depthAll content + 1
  | .text _ => 0
  | .other => 0

def depthAll : List Node → Nat
  | [] => 0
  | node :: rest => max (depth node) (depthAll rest)

end

mutual

/-- No element of a class lies inside another one, or inside one at all. -/
def Flat (ofClass : List Attr → Bool) (inside : Bool) : Node → Prop
  | .element _ attrs content => (ofClass attrs = true → inside = false) ∧
    FlatAll ofClass (inside || ofClass attrs) content
  | .text _ => True
  | .other => True

def FlatAll (ofClass : List Attr → Bool) (inside : Bool) : List Node → Prop
  | [] => True
  | node :: rest => Flat ofClass inside node ∧ FlatAll ofClass inside rest

end

@[simp] theorem tokensAll_append (first second : List Node) :
    tokensAll (first ++ second) = tokensAll first ++ tokensAll second := by
  induction first with
  | nil => rfl
  | cons node rest ih => simp [tokensAll, ih]

@[simp] theorem textAll_append (first second : List Node) :
    textAll (first ++ second) = textAll first ++ textAll second := by
  induction first with
  | nil => simp [textAll]
  | cons node rest ih => simp [textAll, ih, String.append_assoc]

@[simp] theorem treesAll_append (first second : List Node) :
    treesAll (first ++ second) = treesAll first ++ treesAll second := by
  induction first with
  | nil => rfl
  | cons node rest ih => simp [treesAll, ih]

@[simp] theorem depthAll_append (first second : List Node) :
    depthAll (first ++ second) = max (depthAll first) (depthAll second) := by
  induction first with
  | nil => simp [depthAll]
  | cons node rest ih => simp [depthAll, ih, Nat.max_assoc]

@[simp] theorem flatAll_append (ofClass : List Attr → Bool) (inside : Bool)
    (first second : List Node) :
    FlatAll ofClass inside (first ++ second) ↔ FlatAll ofClass inside first ∧
      FlatAll ofClass inside second := by
  induction first with
  | nil => simp [FlatAll]
  | cons node rest ih => simp [FlatAll, ih, and_assoc]

end Node

def Token.outside : Token → Bool
  | .charData _ | .other => true
  | .startElement _ _ | .endElement => false

/-- The tree has the elements of the document, with the text of the words, and the document
nests neither too deep nor words or lines in each other. -/
def Faithful (tokens : List Token) (tree : Tree) : Prop :=
  ∃ (prolog epilog : List Token) (root : Node),
    tokens = prolog ++ root.tokens ++ epilog ∧
    (prolog.all Token.outside && epilog.all Token.outside) = true ∧
    root.trees = [tree] ∧ root.depth ≤ maxHOCRDepth ∧ root.Flat isWord false ∧ root.Flat isLine false

/-! ### Outlines -/

def capacity (grow : Nat → Nat) : Nat → Nat
  | 0 => 16
  | moved + 1 => max (capacity grow moved + 1) (grow (capacity grow moved))

theorem capacity_strictMono (grow : Nat → Nat) : StrictMono (capacity grow) :=
  strictMono_nat_of_lt_succ fun _ => Nat.le_max_left _ _

theorem exists_capacity (grow : Nat → Nat) (height : Nat) : ∃ moved, height ≤ capacity grow moved :=
  ⟨height, (capacity_strictMono grow).le_apply⟩

/-- How often a stack that has held so many frames was moved. -/
def moves (grow : Nat → Nat) (height : Nat) : Nat := Nat.find (exists_capacity grow height)

section Moves

variable {grow : Nat → Nat} {low high height moved : Nat}

theorem moves_mono (le : low ≤ high) : moves grow low ≤ moves grow high :=
  Nat.find_mono fun _ room => Nat.le_trans le room

theorem moves_eq_iff :
    moves grow height = moved ↔ height ≤ capacity grow moved ∧ ∀ fewer < moved,
      capacity grow fewer < height := by
  rw [moves, Nat.find_eq_iff]
  simp only [Nat.not_le]

theorem moves_lt_iff :
    moves grow low < moves grow high ↔ ∃ moved, low ≤ capacity grow moved ∧
      capacity grow moved < high := by
  obtain ⟨room, _⟩ := moves_eq_iff.mp (Eq.refl (moves grow low))
  obtain ⟨_, full⟩ := moves_eq_iff.mp (Eq.refl (moves grow high))
  constructor
  · exact fun lower => ⟨moves grow low, room, full _ lower⟩
  · rintro ⟨moved, above, below⟩
    have atMost : moves grow low ≤ moved := Nat.find_min' _ above
    have more : moved < moves grow high := by
      by_contra fewer
      have enough := (moves_eq_iff.mp (Eq.refl (moves grow high))).1
      have le := (capacity_strictMono grow).monotone (Nat.not_lt.mp fewer)
      omega
    omega

end Moves

/-- An open element. -/
structure Mark where
  isWord : Bool
  isLine : Bool
  /-- The size of the text of a word so far. -/
  bytes : Nat
  /-- The height of the outline at the first text of a word. -/
  first : Option Nat
  deriving DecidableEq

structure Outline where
  /-- The open elements, the innermost last. -/
  marks : List Mark
  /-- The greatest number of elements that were open at once. -/
  height : Nat
  elementCount : Nat
  haveRoot : Bool
  rootComplete : Bool

namespace Outline

def start : Outline := ⟨[], 0, 0, false, false⟩

def startElement (attrs : List Attr) (outline : Outline) : Except String Outline := do
  refuse (outline.rootComplete = true ∨ maxHOCRDepth < outline.marks.length + 1)
    "hOCR XML exceeds structural limits"
  refuse (maxHOCRElements < outline.elementCount + 1 ∨ maxHOCRAttributesPerElement < attrs.length)
    "hOCR XML exceeds structural limits"
  refuse (maxHOCRAttributeBytes < Decoder.attributeBytes attrs) "hOCR XML exceeds attribute limits"
  refuse (outline.marks = [] ∧ outline.haveRoot = true) "failed to parse XML: multiple root elements"
  refuse (isWord attrs = true ∧ (outline.marks.any (·.isWord)) = true)
    "hOCR contains nested word elements"
  refuse (isLine attrs = true ∧ (outline.marks.any (·.isLine)) = true)
    "hOCR contains nested line elements"
  pure { outline with
    marks := outline.marks ++ [⟨isWord attrs, isLine attrs, 0, none⟩]
    height := max outline.height (outline.marks.length + 1)
    elementCount := outline.elementCount + 1
    haveRoot := true }

def Mark.write (height size : Nat) (mark : Mark) : Mark :=
  if mark.isWord then
      { mark with bytes := mark.bytes + size, first := some (mark.first.getD height) } else mark

def charData (text : String) (outline : Outline) : Except String Outline :=
  if outline.marks = [] then do
    refuse (Go.trimSpace text ≠ "") "failed to parse XML: text outside root element"
    pure outline
  else do
    refuse ((outline.marks.any fun mark => mark.isWord &&
      maxHOCRWordTextBytes < mark.bytes + text.utf8ByteSize) = true)
      Decoder.wordTextMessage
    pure { outline with marks := outline.marks.map (Mark.write outline.height text.utf8ByteSize) }

def endElement (outline : Outline) : Except String Outline := do
  refuse (outline.marks = []) "failed to parse XML: unexpected closing element"
  pure { outline with
    marks := outline.marks.dropLast
    rootComplete := outline.rootComplete || outline.marks.dropLast.isEmpty }

def step (outline : Outline) : Token → Except String Outline
  | .startElement _ attrs => outline.startElement attrs
  | .charData text => outline.charData text
  | .endElement => outline.endElement
  | .other => pure outline

def ofTokens (tokens : List Token) : Except String Outline := tokens.foldlM step start

/-- An open word has text from before the stack was moved the last time. -/
def Stale (grow : Nat → Nat) (outline : Outline) : Prop :=
  ∃ mark ∈ outline.marks, mark.isWord = true ∧
    ∃ first, mark.first = some first ∧ moves grow first ≠ moves grow outline.height

end Outline

/-! ### Positions -/

def Token.isStart : Token → Bool
  | .startElement _ _ => true
  | .charData _ | .endElement | .other => false

def Token.isEnd : Token → Bool
  | .endElement => true
  | .startElement _ _ | .charData _ | .other => false

def Token.isText : Token → Bool
  | .charData _ => true
  | .startElement _ _ | .endElement | .other => false

def openCount (tokens : List Token) : Nat := tokens.countP Token.isStart - tokens.countP Token.isEnd

def heightOf (tokens : List Token) : Nat :=
  ((List.range (tokens.length + 1)).map fun position => openCount (tokens.take position)).foldl max 0

/-- At a position, a word is open that has character data from before the nesting depth first passed
a capacity of the stack: 16, or one that it has grown to. -/
def Outgrown (grow : Nat → Nat) (tokens : List Token) (position : Nat) : Prop :=
  ∃ (opened written moved : Nat) (name : Name) (attrs : List Attr) (text : String),
    opened < written ∧ written < position ∧
    tokens[opened]? = some (.startElement name attrs) ∧ isWord attrs = true ∧
    tokens[written]? = some (.charData text) ∧
    (∀ later, opened < later → later ≤ position →
      openCount (tokens.take opened) < openCount (tokens.take later)) ∧
    heightOf (tokens.take written) ≤ capacity grow moved ∧
    capacity grow moved < heightOf (tokens.take position)

end Scribe.Hocr
