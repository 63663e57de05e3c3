import Scribe.Hocr.Spine

/-! The tokens that the decoder has read and the state it is in.

Up to the end of the root element the open elements stand on a spine with one frame
each, and after it the root cell stands for the whole document. A step keeps this.
-/

set_option autoImplicit false

namespace Scribe.Hocr

open Attempt List
open Slices (Slice Memory)

def openTokens : List (Pointer × Level) → List Token
  | [] => []
  | (_, level) :: rest => openTokens rest ++ .startElement level.name
    level.attrs :: Node.tokensAll level.done

/-- The frame of an open element, whose words have the text of their nodes and the text further
in. -/
structure FrameOf (above : String) (frame : Frame) (pointer : Pointer) (level : Level) : Prop where
  element : frame.element = pointer
  captureText : frame.captureText = isWord level.attrs
  isLine : frame.isLine = Hocr.isLine level.attrs
  text : frame.captureText = true → frame.content.text = Node.textAll level.done ++ above

def Framed : (above : String) → List Frame → List (Pointer × Level) → Prop
  | _, [], [] => True
  | above, frame :: frames, (pointer, level) :: rest =>
    FrameOf above frame pointer level ∧ Framed (Node.textAll level.done ++ above) frames rest
  | _, _, _ => False

def inside (ofClass : List Attr → Bool) (entries : List (Pointer × Level)) : Bool :=
  entries.any fun entry => ofClass entry.2.attrs

def Unnested (ofClass : List Attr → Bool) : List (Pointer × Level) → Prop
  | [] => True
  | (pointer, level) :: rest =>
    (ofClass level.attrs = true → inside ofClass rest = false) ∧
    Node.FlatAll ofClass (inside ofClass ((pointer, level) :: rest)) level.done ∧ Unnested ofClass rest

def Shallow : List (Pointer × Level) → Prop
  | [] => True
  | (_, level) :: rest => rest.length + 1 + Node.depthAll level.done ≤ maxHOCRDepth ∧ Shallow rest

structure Opened (decoder : Decoder) (frozen : List Nat)
    (entries : List (Pointer × Level)) : Prop where
  spine : Spine decoder frozen 0 entries
  bound : ∀ array ∈ frozen, array < decoder.arrays.length
  framed : Framed "" decoder.frames.items.reverse entries
  words : Unnested isWord entries
  lines : Unnested Hocr.isLine entries
  shallow : Shallow entries
  haveRoot : decoder.haveRoot = !entries.isEmpty
  rootComplete : decoder.rootComplete = false

structure Complete (decoder : Decoder) (frozen : List Nat) (root : Node) : Prop where
  denotes : ∃ tree, root.trees = [tree] ∧ Denotes decoder.arrays frozen tree decoder.root
  shallow : root.depth ≤ maxHOCRDepth
  words : root.Flat isWord false
  lines : root.Flat Hocr.isLine false
  frames : decoder.frames.items = []
  rootComplete : decoder.rootComplete = true

/-- The state of the decoder after some tokens. -/
inductive Represents (consumed : List Token) (decoder : Decoder) : Prop where
  | reading (prolog : List Token) (outside : prolog.all Token.outside = true) (frozen : List Nat)
      (entries : List (Pointer × Level)) (opened : Opened decoder frozen entries)
      (reads : consumed = prolog ++ openTokens entries)
  | complete (prolog epilog : List Token)
      (outside : (prolog.all Token.outside && epilog.all Token.outside) = true)
      (frozen : List Nat) (root : Node) (done : Complete decoder frozen root)
      (reads : consumed = prolog ++ root.tokens ++ epilog)

theorem Represents.start : Represents [] Decoder.start := by
  refine .reading [] rfl [] [] ⟨trivial, ?_, trivial, trivial, trivial, trivial, rfl, rfl⟩ rfl
  exact fun array member => absurd member not_mem_nil

/-! ### Character data -/

structure Wrote (text : String) (frame written : Frame) : Prop where
  element : written.element = frame.element
  captureText : written.captureText = frame.captureText
  isLine : written.isLine = frame.isLine
  content : frame.captureText = true → written.content.text = frame.content.text ++ text

theorem writeText_wrote {array : Nat} {text : String} {index : Nat} {frames written : List Frame}
    (wrote : Decoder.writeText array text index frames = .ok written) :
    List.Forall₂ (Wrote text) frames written := by
  induction frames generalizing index written with
  | nil =>
    rw [Decoder.writeText, pure_ok_iff] at wrote
    exact wrote ▸ .nil
  | cons frame frames ih =>
    rw [Decoder.writeText] at wrote
    split at wrote
    case isTrue captures =>
      simp only [bind_ok_iff, pure_ok_iff] at wrote
      obtain ⟨_, _, content, written, others, rest, rfl⟩ := wrote
      refine .cons ⟨rfl, rfl, rfl, fun _ => ?_⟩ (ih rest)
      rw [Builder.write] at written
      split at written
      · rw [pure_ok_iff] at written
        rw [← written]
      · exact absurd written throw_ne_ok
    case isFalse skips =>
      simp only [bind_ok_iff, pure_ok_iff] at wrote
      obtain ⟨others, rest, rfl⟩ := wrote
      exact .cons ⟨rfl, rfl, rfl, fun captures => absurd captures skips⟩ (ih rest)

theorem FrameOf.write {above text : String} {frame written : Frame} {pointer : Pointer} {level : Level}
    (here : FrameOf above frame pointer level) (wrote : Wrote text frame written) :
    FrameOf (above ++ text) written pointer level := by
  refine ⟨wrote.element.trans here.element, wrote.captureText.trans here.captureText,
    wrote.isLine.trans here.isLine, fun captures => ?_⟩
  rw [wrote.captureText] at captures
  rw [wrote.content captures, here.text captures, String.append_assoc]

theorem Framed.write {above text : String} {frames written : List Frame}
    {entries : List (Pointer × Level)} (framed : Framed above frames entries)
    (wrote : List.Forall₂ (Wrote text) frames written) :
    Framed (above ++ text) written entries := by
  induction wrote generalizing above entries with
  | nil => cases entries with
    | nil => exact trivial
    | cons entry entries => exact framed.elim
  | cons first _ ih => cases entries with
    | nil => exact framed.elim
    | cons entry entries =>
      refine ⟨framed.1.write first, ?_⟩
      rw [← String.append_assoc]
      exact ih framed.2

theorem Framed.leaf {frames written : List Frame} {pointer : Pointer} {level : Level}
    {rest : List (Pointer × Level)} (framed : Framed "" frames ((pointer, level) :: rest))
    {leaf : Node} (wrote : List.Forall₂ (Wrote leaf.textOf) frames written) :
    Framed "" written ((pointer, { level with done := level.done ++ [leaf] }) :: rest) := by
  have isText : Node.textAll (level.done ++ [leaf]) = Node.textAll level.done ++ leaf.textOf := by
    simp [Node.textAll]
  have after := framed.write wrote
  rw [String.empty_append] at after
  cases wrote with
  | nil => exact framed.elim
  | cons first others =>
    obtain ⟨here, below⟩ := after
    refine ⟨{ here with text := fun captures => ?_ }, ?_⟩
    · rw [here.text captures, isText, String.append_empty]
    · rwa [isText, String.append_empty]

def Node.isLeaf : Node → Bool
  | .element _ _ _ => false
  | .text _ | .other => true

theorem Opened.leaf {decoder : Decoder} {frozen : List Nat} {pointer : Pointer} {level : Level}
    {rest : List (Pointer × Level)} (opened : Opened decoder frozen ((pointer, level) :: rest))
    (leaf : Node) (isLeaf : leaf.isLeaf = true) {items : List Frame}
    (wrote : List.Forall₂ (Wrote leaf.textOf) decoder.frames.items items) :
    Opened { decoder with frames := { decoder.frames with items } } frozen
      ((pointer, { level with done := level.done ++ [leaf] }) :: rest) := by
  have noTrees : leaf.trees = [] := by cases leaf <;> simp_all [Node.isLeaf, Node.trees]
  have noDepth : leaf.depth = 0 := by cases leaf <;> simp_all [Node.isLeaf, Node.depth]
  have flat : ∀ ofClass inside, leaf.Flat ofClass inside := by
    intro ofClass inside
    cases leaf <;> simp_all [Node.isLeaf, Node.Flat]
  have treesSame : Node.treesAll (level.done ++ [leaf]) = Node.treesAll level.done := by
    simp [Node.treesAll, noTrees]
  have countSame : Level.childCount { level with done := level.done ++ [leaf] } =
      level.childCount := by
    simp only [Level.childCount, treesSame]
  have unnested : ∀ ofClass, Unnested ofClass ((pointer, level) :: rest) →
      Unnested ofClass ((pointer, { level with done := level.done ++ [leaf] }) :: rest) := by
    intro ofClass before
    refine ⟨before.1, ?_, before.2.2⟩
    rw [Node.flatAll_append]
    exact ⟨before.2.1, flat _ _, trivial⟩
  refine { opened with
    spine := ?_
    framed := opened.framed.leaf (List.forall₂_reverse_iff.mpr wrote)
    words := unnested isWord opened.words
    lines := unnested Hocr.isLine opened.lines
    shallow := ⟨by simpa [Node.depthAll, noDepth] using opened.shallow.1, opened.shallow.2⟩ }
  obtain ⟨holds, located, apart, below⟩ := opened.spine
  have kept : Holds decoder frozen pointer { level with done := level.done ++ [leaf] } 0 :=
    { holds with
      len := by rw [countSame]; exact holds.len
      done := by rw [countSame, treesSame]; exact holds.done }
  have same :
      Spine decoder frozen 0 ((pointer, { level with done := level.done ++ [leaf] }) :: rest) :=
    ⟨kept, located, apart, below⟩
  exact same.of_memory rfl rfl

/-! ### Opening an element -/

section
variable {above : String} {frames : List Frame} {entries : List (Pointer × Level)}
  (framed : Framed above frames entries)
include framed

theorem Framed.length : frames.length = entries.length := by
  induction frames generalizing above entries with
  | nil => cases entries with
    | nil => rfl
    | cons entry entries => exact framed.elim
  | cons frame frames ih => cases entries with
    | nil => exact framed.elim
    | cons entry entries => simp [ih framed.2]

theorem Framed.any :
    frames.any (·.captureText) = inside isWord entries ∧
      frames.any (·.isLine) = inside Hocr.isLine entries := by
  induction frames generalizing above entries with
  | nil => cases entries with
    | nil => exact ⟨rfl, rfl⟩
    | cons entry entries => exact framed.elim
  | cons frame frames ih => cases entries with
    | nil => exact framed.elim
    | cons entry entries =>
      obtain ⟨words, lines⟩ := ih framed.2
      simp only [inside, any_cons] at words lines ⊢
      rw [words, lines, framed.1.captureText, framed.1.isLine]
      exact ⟨rfl, rfl⟩

end

/-- A new element in its place. -/
structure Placed (element : XMLElement) (decoder : Decoder) (pointer : Pointer)
    (placed : Decoder) : Prop where
  loads : placed.load pointer = element
  frames : placed.frames = decoder.frames
  elementCount : placed.elementCount = decoder.elementCount
  haveRoot : placed.haveRoot = true
  rootComplete : placed.rootComplete = decoder.rootComplete

theorem store_frames (decoder : Decoder) (element : XMLElement) (pointer : Pointer) :
    (decoder.store element pointer).frames = decoder.frames ∧
    (decoder.store element pointer).elementCount = decoder.elementCount ∧
    (decoder.store element pointer).haveRoot = decoder.haveRoot ∧
    (decoder.store element pointer).rootComplete = decoder.rootComplete := by
  cases pointer <;> exact ⟨rfl, rfl, rfl, rfl⟩

section Opening

variable {decoder : Decoder} {frozen : List Nat} {entries : List (Pointer × Level)}

theorem Opened.place (opened : Opened decoder frozen entries) (grow : Nat → Nat) (name : Name)
    (attrs : List Attr) :
    ∃ pointer placed, Decoder.place grow ⟨name, attrs, "", Slice.nil⟩ decoder = .ok (pointer, placed) ∧
      Placed ⟨name, attrs, "", Slice.nil⟩ decoder pointer placed ∧
      Spine placed frozen 0 ((pointer, ⟨name, attrs, []⟩) :: entries) ∧
      ∀ array ∈ frozen, array < placed.arrays.length := by
  have framed := opened.framed
  have haveRoot := opened.haveRoot
  cases entries with
  | nil =>
    have empty : decoder.frames.items = [] := by simpa using framed.length
    refine ⟨.root, { decoder with root := ⟨name, attrs, "", Slice.nil⟩, haveRoot := true }, ?_,
      ⟨rfl, rfl, rfl, rfl, rfl⟩, ⟨⟨rfl, rfl, rfl, Slices.Fits.nil _, rfl, trivial, fun filled =>
        absurd rfl filled⟩, rfl, fun filled => absurd rfl filled, trivial⟩, opened.bound⟩
    simp [Decoder.place, empty, haveRoot, refuse, pure, Except.pure, bind, Except.bind]
  | cons entry rest =>
    obtain ⟨pointer, level⟩ := entry
    cases isItems : decoder.frames.items.reverse with
    | nil =>
      rw [isItems] at framed
      exact framed.elim
    | cons frame frames =>
      rw [isItems] at framed
      have isLast : decoder.frames.items.getLast? = some frame := by
        rw [← head?_reverse, isItems, head?_cons]
      have holds := opened.spine.1
      cases made : Slices.append grow XMLElement.zero decoder.arrays (decoder.load pointer).children
          ⟨name, attrs, "", Slice.nil⟩ with
      | mk arrays children =>
        obtain ⟨loads, spine, bound⟩ :=
          opened.spine.open opened.bound (Slices.appended holds.fits made)
        refine ⟨_, _, ?_, ?_, spine, bound⟩
        · simp only [Decoder.place, isLast, framed.1.element, made]
          rfl
        · obtain ⟨sameFrames, sameCount, sameRoot, sameComplete⟩ :=
            store_frames { decoder with arrays } { decoder.load pointer with children } pointer
          exact ⟨loads, sameFrames, sameCount, sameRoot.trans haveRoot, sameComplete⟩

theorem Opened.with_count (opened : Opened decoder frozen entries) (elementCount : Nat) :
    Opened { decoder with elementCount } frozen entries :=
  { opened with spine := opened.spine.of_memory rfl rfl }

theorem frames_push (grow : Nat → Nat) (frames : Frames) (frame : Frame) :
    (frames.push grow frame).items = frames.items ++ [frame] := by
  rw [Frames.push]
  split <;> rfl

theorem Opened.startElement (opened : Opened decoder frozen entries) {growth : Growth} {name : Name}
    {attrs : List Attr} {next : Decoder}
    (started : decoder.startElement growth name attrs = .ok next) :
    ∃ pointer, Opened next frozen ((pointer, ⟨name, attrs, []⟩) :: entries) := by
  obtain ⟨pointer, placed, isPlaced, place, spine, bound⟩ :=
    (opened.with_count (decoder.elementCount + 1)).place growth.children name attrs
  simp only [Decoder.startElement, bind_ok_iff, pure_ok_iff, refuse_ok_iff, exists_const, isPlaced,
    Except.ok.injEq, place.loads, exists_eq_left'] at started
  obtain ⟨shallow, _, _, noWord, noLine, rfl⟩ := started
  obtain ⟨words, lines⟩ := opened.framed.any
  rw [any_reverse] at words lines
  have size : decoder.frames.items.length = entries.length := by simpa using opened.framed.length
  refine ⟨pointer, spine.of_memory rfl rfl, bound, ?_, ⟨?_, trivial, opened.words⟩,
    ⟨?_, trivial, opened.lines⟩, ⟨?_, opened.shallow⟩, place.haveRoot,
    place.rootComplete.trans opened.rootComplete⟩
  · rw [frames_push, place.frames, reverse_append]
    exact ⟨⟨rfl, rfl, rfl, fun _ => rfl⟩, opened.framed⟩
  · intro isWord
    rw [place.frames, words] at noWord
    simpa using fun nested => noWord ⟨isWord, nested⟩
  · intro isLine
    rw [place.frames, lines] at noLine
    simpa using fun nested => noLine ⟨isLine, nested⟩
  · simp only [Node.depthAll]
    omega

end Opening

/-! ### Closing an element -/

section Closing

variable {decoder : Decoder} {frozen : List Nat} {pointer : Pointer} {level : Level}
  {rest : List (Pointer × Level)}

theorem Spine.store_load (spine : Spine decoder frozen 0 ((pointer, level) :: rest)) :
    decoder.store (decoder.load pointer) pointer = decoder := by
  cases rest with
  | nil =>
    have isRoot : pointer = .root := spine.2.1
    rw [isRoot]
    rfl
  | cons below rest =>
    have found := spine.read_top
    have located : pointer = _ := spine.2.1
    rw [located, Decoder.store_slot, ← located, Slices.write_read found]

section
variable (opened : Opened decoder frozen ((pointer, level) :: rest))
include opened

theorem Opened.fill {frame : Frame} (isFrame : FrameOf "" frame pointer level) :
    decoder.fill frame = decoder.store
      { decoder.load pointer with content := if isWord level.attrs then Node.textAll level.done
        else "" } pointer := by
  rw [Decoder.fill, ← isFrame.captureText]
  split
  case isTrue captures => rw [isFrame.element, isFrame.text captures, String.append_empty]
  case isFalse =>
    have same : { decoder.load pointer with content := "" } = decoder.load pointer := by
      rw [← opened.spine.1.content]
    rw [same, opened.spine.store_load]

theorem Opened.last :
    ∃ frame, decoder.frames.items.getLast? = some frame ∧ FrameOf "" frame pointer level ∧
      Framed (Node.textAll level.done) decoder.frames.items.dropLast.reverse rest := by
  have framed := opened.framed
  cases isItems : decoder.frames.items.reverse with
  | nil =>
    rw [isItems] at framed
    exact framed.elim
  | cons frame frames =>
    rw [isItems] at framed
    refine ⟨frame, by rw [← head?_reverse, isItems, head?_cons], framed.1, ?_⟩
    have below := framed.2
    rw [String.append_empty] at below
    rw [← tail_reverse, isItems]
    exact below

def Decoder.closed (decoder : Decoder) (pointer : Pointer) (level : Level) : Decoder :=
  { decoder.store { decoder.load pointer with
        content := if isWord level.attrs then Node.textAll level.done else "" } pointer with
    frames := { decoder.frames with items := decoder.frames.items.dropLast }
    rootComplete := decoder.rootComplete || decoder.frames.items.dropLast.isEmpty }

theorem Opened.endElement : decoder.endElement = .ok (decoder.closed pointer level) := by
  obtain ⟨frame, isLast, isFrame, _⟩ := opened.last
  obtain ⟨sameFrames, _, _, sameComplete⟩ := store_frames decoder
    { decoder.load pointer with
      content := if isWord level.attrs then Node.textAll level.done else "" } pointer
  simp only [Decoder.endElement, isLast, opened.fill isFrame, sameFrames, sameComplete]
  rfl

end

theorem Opened.close {below : Pointer} {under : Level}
    (opened : Opened decoder frozen ((pointer, level) :: (below, under) :: rest)) :
    ∃ frozen, Opened (decoder.closed pointer level) frozen
      ((below, { under with done := under.done ++ [.element level.name level.attrs level.done]
        }) :: rest) := by
  obtain ⟨_, _, _, framed⟩ := opened.last
  obtain ⟨spine, bound⟩ := opened.spine.close opened.bound rfl
  have unnested : ∀ ofClass, Unnested ofClass ((pointer, level) :: (below, under) :: rest) →
      Unnested ofClass
      ((below, { under with done := under.done ++ [.element level.name level.attrs level.done]
          }) :: rest) := by
    intro ofClass before
    obtain ⟨outer, flat, outerBelow, flatBelow, others⟩ := before
    refine ⟨outerBelow, ?_, others⟩
    rw [Node.flatAll_append]
    refine ⟨flatBelow, ⟨outer, ?_⟩, trivial⟩
    have same : (inside ofClass ((below, under) :: rest) || ofClass level.attrs) =
        inside ofClass ((pointer, level) :: (below, under) :: rest) := by
      simp only [inside, any_cons]
      exact Bool.or_comm _ _
    exact same ▸ flat
  -- Closing changes no text: what the element holds now counts towards the one below.
  have isText : Node.textAll (under.done ++ [.element level.name level.attrs level.done]) =
      Node.textAll under.done ++ Node.textAll level.done := by
    simp [Node.textAll, Node.textOf]
  refine ⟨_, spine.of_memory rfl rfl, bound, ?_, unnested isWord opened.words,
    unnested Hocr.isLine opened.lines, ?_, ?_, ?_⟩
  · change Framed "" decoder.frames.items.dropLast.reverse _
    cases isItems : decoder.frames.items.dropLast.reverse with
    | nil =>
      rw [isItems] at framed
      exact framed.elim
    | cons frame frames =>
      rw [isItems] at framed
      obtain ⟨here, others⟩ := framed
      refine ⟨⟨here.element, here.captureText, here.isLine, fun captures => ?_⟩, ?_⟩
      · rw [here.text captures, isText, String.append_empty]
      · rw [isText, String.append_empty]
        exact others
  · obtain ⟨deep, deepBelow, others⟩ := opened.shallow
    refine ⟨?_, others⟩
    simp only [length_cons, Node.depthAll_append, Node.depthAll, Node.depth] at deep deepBelow ⊢
    omega
  · exact (store_frames decoder _ pointer).2.2.1.trans opened.haveRoot
  · have notLast : decoder.frames.items.dropLast ≠ [] := by
      intro empty
      rw [empty] at framed
      exact framed.elim
    simp [Decoder.closed, opened.rootComplete, notLast]

theorem Opened.finish (opened : Opened decoder frozen [(pointer, level)]) :
    ∃ frozen, Complete (decoder.closed pointer level) frozen
      (.element level.name level.attrs level.done) := by
  obtain ⟨_, _, _, framed⟩ := opened.last
  have last : decoder.frames.items.dropLast = [] :=
    reverse_eq_nil_iff.mp (length_eq_zero_iff.mp framed.length)
  have isRoot : pointer = .root := opened.spine.2.1
  have flat : ∀ ofClass, Unnested ofClass [(pointer, level)] →
      (Node.element level.name level.attrs level.done).Flat ofClass false := by
    intro ofClass before
    refine ⟨fun _ => rfl, ?_⟩
    have content := before.2.1
    simpa [inside] using content
  refine ⟨frozenWith (decoder.load pointer) frozen, ⟨_, rfl, ?_⟩, ?_, flat isWord opened.words,
    flat Hocr.isLine opened.lines, last, ?_⟩
  · subst isRoot
    exact opened.spine.1.denotes fun _ _ => rfl
  · have deep := opened.shallow.1
    simp only [length_nil, Node.depth] at deep ⊢
    omega
  · simp [Decoder.closed, last]

end Closing

/-! ### Steps -/

theorem openTokens_leaf (pointer : Pointer) (level : Level) (rest : List (Pointer × Level))
    (leaf : Node) : openTokens ((pointer, { level with done := level.done ++ [leaf] }) :: rest) =
      openTokens ((pointer, level) :: rest) ++ leaf.tokens := by
  simp [openTokens, Node.tokensAll]

theorem openTokens_close (pointer below : Pointer) (level under : Level)
    (rest : List (Pointer × Level)) :
    openTokens ((below,
      { under with done := under.done ++ [.element level.name level.attrs level.done] }) :: rest) =
      openTokens ((pointer, level) :: (below, under) :: rest) ++ [.endElement] := by
  simp [openTokens, Node.tokensAll, Node.tokens]

theorem wrote_nothing (frames : List Frame) : List.Forall₂ (Wrote "") frames frames :=
  List.forall₂_same.mpr fun _ _ => ⟨rfl, rfl, rfl, fun _ => (String.append_empty).symm⟩

section Steps

variable {consumed : List Token} {decoder next : Decoder} {growth : Growth}

section
variable (represents : Represents consumed decoder)
include represents

/-- The tokens of a node without elements, wherever it stands. -/
theorem Represents.leaf (leaf : Node) (isLeaf : leaf.isLeaf = true) {items : List Frame}
    (wrote : List.Forall₂ (Wrote leaf.textOf) decoder.frames.items items) :
    Represents (consumed ++ leaf.tokens) { decoder with frames := { decoder.frames with items } } := by
  have outsides : leaf.tokens.all Token.outside = true := by
    cases leaf <;> simp_all [Node.isLeaf, Node.tokens, Token.outside]
  have same : decoder.frames.items = [] →
      { decoder with frames := { decoder.frames with items } } = decoder := by
    intro empty
    rw [empty] at wrote
    cases wrote
    rw [← empty]
  cases represents with
  | reading prolog outside frozen entries opened reads =>
    cases entries with
    | nil =>
      rw [same (by simpa using opened.framed.length)]
      exact .reading (prolog ++ leaf.tokens) (by simp [outside, outsides]) frozen [] opened
        (by simp [reads, openTokens])
    | cons top rest =>
      obtain ⟨pointer, level⟩ := top
      exact .reading prolog outside frozen _ (opened.leaf leaf isLeaf wrote)
        (by rw [openTokens_leaf, reads, append_assoc])
  | complete prolog epilog outside frozen root done reads =>
    rw [same done.frames]
    exact .complete prolog (epilog ++ leaf.tokens) (by simpa [outsides] using outside) frozen root
      done (by simp [reads])

theorem Represents.charData {text : String}
    (read : decoder.charData text = .ok next) : Represents (consumed ++ [.charData text]) next := by
  rw [Decoder.charData] at read
  split at read
  case isTrue empty =>
    obtain ⟨_, _, same⟩ := bind_ok_iff.mp read
    obtain rfl := pure_ok_iff.mp same
    have nothing : List.Forall₂ (Wrote text) decoder.frames.items decoder.frames.items := by
      rw [empty]
      exact .nil
    exact represents.leaf (.text text) rfl nothing
  case isFalse =>
    simp only [bind_ok_iff, pure_ok_iff] at read
    obtain ⟨items, wrote, rfl⟩ := read
    exact represents.leaf (.text text) rfl (writeText_wrote wrote)

theorem Represents.startElement {name : Name} {attrs : List Attr}
    (read : decoder.startElement growth name attrs = .ok next) :
    Represents (consumed ++ [.startElement name attrs]) next := by
  cases represents with
  | reading prolog outside frozen entries opened reads =>
    obtain ⟨pointer, started⟩ := opened.startElement read
    exact .reading prolog outside frozen _ started (by simp [reads, openTokens, Node.tokensAll])
  | complete prolog epilog outside frozen root done reads =>
    simp [Decoder.startElement, bind_ok_iff, refuse_ok_iff, done.rootComplete] at read

theorem Represents.endElement (read : decoder.endElement = .ok next) :
    Represents (consumed ++ [.endElement]) next := by
  cases represents with
  | reading prolog outside frozen entries opened reads =>
    cases entries with
    | nil =>
      have empty : decoder.frames.items = [] := by simpa using opened.framed.length
      simp [Decoder.endElement, empty, throw, throwThe, MonadExceptOf.throw] at read
    | cons top rest =>
      obtain ⟨pointer, level⟩ := top
      rw [opened.endElement, Except.ok.injEq] at read
      subst read
      cases rest with
      | nil =>
        obtain ⟨frozen, done⟩ := opened.finish
        exact .complete prolog [] (by simpa using outside) frozen _ done
          (by simp [reads, openTokens, Node.tokens])
      | cons second rest =>
        obtain ⟨below, under⟩ := second
        obtain ⟨frozen, closed⟩ := opened.close
        exact .reading prolog outside frozen _ closed
          (by rw [openTokens_close pointer, reads, append_assoc])
  | complete prolog epilog outside frozen root done reads =>
    simp [Decoder.endElement, done.frames, throw, throwThe, MonadExceptOf.throw] at read

theorem Represents.step {token : Token}
    (read : decoder.step growth token = .ok next) : Represents (consumed ++ [token]) next := by
  cases token with
  | startElement name attrs => exact represents.startElement read
  | charData text => exact represents.charData read
  | endElement => exact represents.endElement read
  | other =>
    simp only [Decoder.step, pure_ok_iff] at read
    exact read ▸ represents.leaf .other rfl (wrote_nothing _)

end

end Steps

end Scribe.Hocr
