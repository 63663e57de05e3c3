import Scribe.Hocr.Document

/-! The memory of the decoder and the document it stands for.

The open elements form a spine: each is the last child of the one below it. The arrays
of their children are different ones, and none of them holds a finished subtree, so
what the decoder writes at the end of the spine leaves the finished subtrees alone.
-/

set_option autoImplicit false

namespace Scribe.Hocr

open List

open Slices (Slice Memory Fits contents)

/-! ### Finished subtrees -/

mutual

/-- The tree that a cell stands for, with children in frozen arrays only. -/
def Denotes (arrays : Memory XMLElement) (frozen : List Nat) : Tree → XMLElement → Prop
  | .node name attrs content children, element =>
    element.name = name ∧ element.attrs = attrs ∧ element.content = content ∧
    (element.children.len ≠ 0 → element.children.array ∈ frozen) ∧
    DenotesAll arrays frozen children (contents arrays element.children)

def DenotesAll (arrays : Memory XMLElement) (frozen : List Nat) : List Tree → List XMLElement → Prop
  | [], [] => True
  | tree :: trees, element :: elements => Denotes arrays frozen tree element ∧
    DenotesAll arrays frozen trees elements
  | _, _ => False

end

section Denotation

variable {arrays later : Memory XMLElement} {frozen thawless : List Nat}

mutual

theorem Denotes.congr (same : ∀ array ∈ frozen, array ∈ thawless ∧ later[array]? = arrays[array]?) :
    ∀ (tree : Tree) {element : XMLElement}, Denotes arrays frozen tree element →
      Denotes later thawless tree element
  | .node name attrs content children, element, denotes => by
    obtain ⟨isName, isAttrs, isContent, frozenHere, all⟩ := denotes
    refine ⟨isName, isAttrs, isContent, fun filled => (same _ (frozenHere filled)).1, ?_⟩
    rw [Slices.contents_congr fun filled => (same _ (frozenHere filled)).2]
    exact DenotesAll.congr same children all

theorem DenotesAll.congr (same : ∀ array ∈ frozen, array ∈ thawless ∧ later[array]? = arrays[array]?) :
    ∀ (trees : List Tree) {elements : List XMLElement},
      DenotesAll arrays frozen trees elements → DenotesAll later thawless trees elements
  | [], [], _ => trivial
  | [], _ :: _, denotes => denotes
  | _ :: _, [], denotes => denotes
  | tree :: trees, _ :: _, denotes =>
      ⟨Denotes.congr same tree denotes.1, DenotesAll.congr same trees denotes.2⟩

end

theorem DenotesAll.concat {trees : List Tree} {elements : List XMLElement} {tree : Tree}
    {element : XMLElement} (all : DenotesAll arrays frozen trees elements)
    (denotes : Denotes arrays frozen tree element) :
    DenotesAll arrays frozen (trees ++ [tree]) (elements ++ [element]) := by
  induction trees generalizing elements with
  | nil => cases elements with
    | nil => exact ⟨denotes, trivial⟩
    | cons first rest => exact all.elim
  | cons first rest ih => cases elements with
    | nil => exact all.elim
    | cons head tail => exact ⟨all.1, ih all.2⟩

mutual

def Tree.depth : Tree → Nat
  | .node _ _ _ children => Tree.depthAll children + 1

def Tree.depthAll : List Tree → Nat
  | [] => 0
  | tree :: rest => max (Tree.depth tree) (Tree.depthAll rest)

end

theorem Tree.depthAll_append (first second : List Tree) :
    Tree.depthAll (first ++ second) = max (Tree.depthAll first) (Tree.depthAll second) := by
  induction first with
  | nil => simp [Tree.depthAll]
  | cons tree rest ih => simp [Tree.depthAll, ih, Nat.max_assoc]

mutual

theorem Node.depth_trees : ∀ node : Node, Tree.depthAll node.trees = node.depth
  | .element _ _ content =>
      by simp [Node.trees, Tree.depthAll, Tree.depth, Node.depth, Node.depth_treesAll content]
  | .text _ => rfl
  | .other => rfl

theorem Node.depth_treesAll : ∀ nodes : List Node,
      Tree.depthAll (Node.treesAll nodes) = Node.depthAll nodes
  | [] => rfl
  | node :: rest => by
    rw [Node.treesAll, Tree.depthAll_append, Node.depth_trees node, Node.depth_treesAll rest,
      Node.depthAll]

end

mutual

theorem Denotes.readTree : ∀ (tree : Tree) {element : XMLElement} {depth : Nat},
      Denotes arrays frozen tree element →
    tree.depth ≤ depth → Hocr.readTree arrays depth element = tree
  | .node name attrs content children, element, 0, _, deep => absurd deep (by simp [Tree.depth])
  | .node name attrs content children, element, depth + 1, denotes, deep => by
    obtain ⟨rfl, rfl, rfl, _, all⟩ := denotes
    rw [Hocr.readTree, DenotesAll.readTree children all (by simpa [Tree.depth] using deep)]

theorem DenotesAll.readTree : ∀ (trees : List Tree) {elements : List XMLElement} {depth : Nat},
    DenotesAll arrays frozen trees elements → Tree.depthAll trees ≤ depth →
    elements.map (Hocr.readTree arrays depth) = trees
  | [], [], _, _, _ => rfl
  | [], _ :: _, _, denotes, _ => denotes.elim
  | _ :: _, [], _, denotes, _ => denotes.elim
  | tree :: trees, _ :: _, _, denotes, deep => by
    rw [map_cons, Denotes.readTree tree denotes.1 (Nat.le_trans (Nat.le_max_left _ _) deep),
      DenotesAll.readTree trees denotes.2 (Nat.le_trans (Nat.le_max_right _ _) deep)]

end

end Denotation

/-! ### The open elements -/

/-- An open element and the nodes it has so far. -/
structure Level where
  name : Name
  attrs : List Attr
  done : List Node

def Level.childCount (level : Level) : Nat := (Node.treesAll level.done).length

structure Holds (decoder : Decoder) (frozen : List Nat) (pointer : Pointer) (level : Level)
    (more : Nat) : Prop where
  name : (decoder.load pointer).name = level.name
  attrs : (decoder.load pointer).attrs = level.attrs
  content : (decoder.load pointer).content = ""
  fits : Fits decoder.arrays (decoder.load pointer).children
  len : (decoder.load pointer).children.len = level.childCount + more
  done : DenotesAll decoder.arrays frozen (Node.treesAll level.done)
    ((contents decoder.arrays (decoder.load pointer).children).take level.childCount)
  live : (decoder.load pointer).children.cap ≠ 0 → (decoder.load pointer).children.array ∉ frozen

/-- An element is the root, or the child after the finished ones of the element below. -/
def Located (decoder : Decoder) (pointer : Pointer) : List (Pointer × Level) → Prop
  | [] => pointer = .root
  | (below, level) :: _ => pointer = .slot (decoder.load below).children.array level.childCount

def Apart (decoder : Decoder) (pointer : Pointer) (rest : List (Pointer × Level)) : Prop :=
  (decoder.load pointer).children.cap ≠ 0 →
    ∀ entry ∈ rest, (decoder.load entry.1).children.array ≠ (decoder.load pointer).children.array

/-- The open elements, the innermost first. -/
def Spine (decoder : Decoder) (frozen : List Nat) : (more : Nat) → List (Pointer × Level) → Prop
  | _, [] => True
  | more, (pointer, level) :: rest =>
    Holds decoder frozen pointer level more ∧ Located decoder pointer rest ∧
      Apart decoder pointer rest ∧
    Spine decoder frozen 1 rest

theorem Decoder.load_slot (decoder : Decoder) (array index : Nat) :
    decoder.load (.slot array index) = (Slices.read decoder.arrays array index).getD
      XMLElement.zero := rfl

theorem Decoder.store_slot (decoder : Decoder) (element : XMLElement) (array index : Nat) :
    decoder.store element (.slot array index) =
      { decoder with arrays := Slices.write decoder.arrays array index element } := rfl

section Spine

variable {decoder next : Decoder} {frozen frozen' : List Nat}

theorem Holds.cap_ne_zero {pointer : Pointer} {level : Level}
    (holds : Holds decoder frozen pointer level 1) : (decoder.load pointer).children.cap ≠ 0 := by
  have := holds.fits.within
  have := holds.len
  omega

theorem Spine.holds_of_mem {rest : List (Pointer × Level)} (spine : Spine decoder frozen 1 rest)
    {entry : Pointer × Level} (member : entry ∈ rest) : Holds decoder frozen entry.1 entry.2 1 := by
  induction rest with
  | nil => cases member
  | cons first rest ih =>
    obtain ⟨pointer, level⟩ := first
    rcases mem_cons.mp member with rfl | there
    · exact spine.1
    · exact ih spine.2.2.2 there

theorem Spine.exists_holds {more : Nat} {entries : List (Pointer × Level)}
    (spine : Spine decoder frozen more entries) {entry : Pointer × Level}
    (member : entry ∈ entries) : ∃ some, Holds decoder frozen entry.1 entry.2 some := by
  cases entries with
  | nil => cases member
  | cons first rest =>
    rcases mem_cons.mp member with rfl | there
    · exact ⟨more, spine.1⟩
    · exact ⟨1, spine.2.2.2.holds_of_mem there⟩

theorem Spine.location {more : Nat} {pointer : Pointer} {level : Level} {rest : List (Pointer × Level)}
    (spine : Spine decoder frozen more ((pointer, level) :: rest)) {entry : Pointer × Level}
    (member : entry ∈ (pointer, level) :: rest) :
    entry.1 = .root ∨ ∃ below ∈ rest, ∃ index,
      entry.1 = .slot (decoder.load below.1).children.array index := by
  induction rest generalizing more pointer level with
  | nil =>
    rw [mem_singleton.mp member]
    exact .inl spine.2.1
  | cons first rest ih =>
    obtain ⟨below, under⟩ := first
    rcases mem_cons.mp member with rfl | there
    · exact .inr ⟨(below, under), mem_cons_self, _, spine.2.1⟩
    · rcases ih spine.2.2.2 there with isRoot | ⟨other, deeper, located⟩
      · exact .inl isRoot
      · exact .inr ⟨other, mem_cons_of_mem _ deeper, located⟩

structure Kept (decoder next : Decoder) (entries : List (Pointer × Level)) : Prop where
  loads : ∀ entry ∈ entries, next.load entry.1 = decoder.load entry.1
  fits : ∀ entry ∈ entries, Fits next.arrays (decoder.load entry.1).children
  takes : ∀ entry ∈ entries, (contents next.arrays (decoder.load entry.1).children).take
    entry.2.childCount =
    (contents decoder.arrays (decoder.load entry.1).children).take entry.2.childCount

section
variable {pointer : Pointer} {rest : List (Pointer × Level)}

theorem Kept.tail {first : Pointer × Level} (kept : Kept decoder next (first :: rest)) :
    Kept decoder next rest :=
  ⟨fun entry member => kept.loads entry (mem_cons_of_mem _ member),
    fun entry member => kept.fits entry (mem_cons_of_mem _ member),
    fun entry member => kept.takes entry (mem_cons_of_mem _ member)⟩

variable (kept : Kept decoder next rest)
include kept

theorem Kept.located (located : Located decoder pointer rest) : Located next pointer rest := by
  cases rest with
  | nil => exact located
  | cons first rest =>
    simp only [Located, kept.loads first mem_cons_self]
    exact located

theorem Kept.apart (here : next.load pointer = decoder.load pointer)
    (apart : Apart decoder pointer rest) : Apart next pointer rest := by
  intro filled entry member
  rw [here] at filled ⊢
  rw [kept.loads entry member]
  exact apart filled entry member

theorem Spine.congr {more : Nat} (spine : Spine decoder frozen more rest)
    (same : ∀ array ∈ frozen, array ∈ frozen' ∧ next.arrays[array]? = decoder.arrays[array]?)
    (live : ∀ entry ∈ rest, (decoder.load entry.1).children.cap ≠ 0 →
      (decoder.load entry.1).children.array ∉ frozen') : Spine next frozen' more rest := by
  induction rest generalizing more with
  | nil => trivial
  | cons first rest ih =>
    obtain ⟨pointer, level⟩ := first
    obtain ⟨holds, located, apart, below⟩ := spine
    have here : next.load pointer = _ := kept.loads (pointer, level) mem_cons_self
    refine ⟨?_, kept.tail.located located, kept.tail.apart here apart,
      ih kept.tail below fun entry member => live entry (mem_cons_of_mem _ member)⟩
    constructor <;> rw [here]
    case name => exact holds.name
    case attrs => exact holds.attrs
    case content => exact holds.content
    case fits => exact kept.fits (pointer, level) mem_cons_self
    case len => exact holds.len
    case done =>
      rw [kept.takes (pointer, level) mem_cons_self]
      exact DenotesAll.congr same _ holds.done
    case live => exact live (pointer, level) mem_cons_self

end

theorem Spine.of_memory {more : Nat} {entries : List (Pointer × Level)}
    (spine : Spine decoder frozen more entries) (root : next.root = decoder.root)
    (arrays : next.arrays = decoder.arrays) : Spine next frozen more entries := by
  have loads : ∀ pointer, next.load pointer = decoder.load pointer := by
    intro pointer
    cases pointer with
    | root => exact root
    | slot array index => rw [Decoder.load_slot, Decoder.load_slot, arrays]
  have kept : Kept decoder next entries := by
    refine ⟨fun entry _ => loads entry.1, fun entry member => ?_, fun entry _ => by rw [arrays]⟩
    obtain ⟨_, holds⟩ := spine.exists_holds member
    exact arrays ▸ holds.fits
  refine spine.congr kept (fun array member => ⟨member, by rw [arrays]⟩) fun entry member => ?_
  obtain ⟨_, holds⟩ := spine.exists_holds member
  exact holds.live

theorem Spine.read_top {more : Nat} {pointer below : Pointer} {level under : Level}
    {rest : List (Pointer × Level)}
    (spine : Spine decoder frozen more ((pointer, level) :: (below, under) :: rest)) :
    Slices.read decoder.arrays (decoder.load below).children.array under.childCount =
      some (decoder.load pointer) := by
  obtain ⟨_, located, _, holds, _⟩ := spine
  obtain ⟨value, found, _⟩ := Slices.read_last holds.fits holds.len
  simp only [Located] at located
  rw [located, Decoder.load, found, Option.getD_some]

section
variable {more : Nat} {pointer : Pointer} {level : Level} {rest : List (Pointer × Level)}
  (spine : Spine decoder frozen more ((pointer, level) :: rest))
include spine

theorem Spine.store_other (arrays : Memory XMLElement) (element : XMLElement) {array : Nat}
    (clear : ∀ entry ∈ rest, (decoder.load entry.1).children.array ≠ array) :
    ({ decoder with arrays }.store element pointer).arrays[array]? = arrays[array]? := by
  have located := spine.2.1
  cases rest with
  | nil =>
    obtain rfl : pointer = .root := located
    rfl
  | cons first rest =>
    obtain rfl : pointer = _ := located
    exact Slices.write_other (clear first mem_cons_self).symm

section
variable {arrays : Memory XMLElement} (others : ∀ array, array < decoder.arrays.length →
  ((decoder.load pointer).children.cap ≠ 0 → array ≠ (decoder.load pointer).children.array) →
  arrays[array]? = decoder.arrays[array]?) (element : XMLElement)
include others

/-- A write at the innermost element, and changes to the array of its children and to new arrays,
leave the elements below alone. -/
theorem Spine.kept : Kept decoder ({ decoder with arrays }.store element pointer) rest := by
  obtain ⟨_, located, apart, lower⟩ := spine
  cases rest with
  | nil => exact ⟨nofun, nofun, nofun⟩
  | cons first rest =>
    obtain ⟨below, under⟩ := first
    obtain rfl : pointer = _ := located
    have sameArray : ∀ entry ∈ (below, under) :: rest,
        arrays[(decoder.load entry.1).children.array]? =
            decoder.arrays[(decoder.load entry.1).children.array]? := by
      intro entry member
      have holds := lower.holds_of_mem member
      exact others _ (holds.fits.array_lt holds.cap_ne_zero) fun filled => apart filled entry member
    have tailApart : ∀ entry ∈ rest,
        (decoder.load entry.1).children.array ≠ (decoder.load below).children.array :=
      lower.2.2.1 (lower.holds_of_mem mem_cons_self).cap_ne_zero
    refine ⟨fun entry member => ?_, fun entry member => ?_, fun entry member => ?_⟩
    · rcases lower.location member with isRoot | ⟨deeper, there, index, isSlot⟩
      · rw [isRoot]
        rfl
      · rw [isSlot, Decoder.load_slot, Decoder.load_slot, Decoder.store_slot]
        simp only
        rw [Slices.read_congr (Slices.write_other (tailApart deeper there)),
          Slices.read_congr (sameArray deeper (mem_cons_of_mem _ there))]
    · exact ((lower.holds_of_mem member).fits.congr fun _ => sameArray entry member).write _ _ _
    · have fits := (lower.holds_of_mem member).fits.congr fun _ => sameArray entry member
      rw [← Slices.contents_congr fun _ => sameArray entry member]
      rcases mem_cons.mp member with rfl | there
      · exact Slices.take_contents_write fits (Nat.le_refl _) _ _
      · simp only [Decoder.store]
        rw [Slices.contents_congr fun _ => Slices.write_other (tailApart entry there)]

theorem Spine.load_top : ({ decoder with arrays }.store element pointer).load pointer = element := by
  cases rest with
  | nil =>
    have isRoot : pointer = .root := spine.2.1
    rw [isRoot]
    rfl
  | cons first rest =>
    obtain ⟨below, under⟩ := first
    have found := spine.read_top
    obtain ⟨_, located, apart, lower⟩ := spine
    have holds := lower.holds_of_mem mem_cons_self
    have same := others _ (holds.fits.array_lt holds.cap_ne_zero) fun filled =>
      apart filled _ mem_cons_self
    rw [← Slices.read_congr same] at found
    rw [show pointer = _ from located, Decoder.load_slot, Decoder.store_slot]
    simp only
    rw [Slices.read_write_self found, Option.getD_some]

end

theorem Spine.array_apart {array : Nat}
    (fresh : (array = (decoder.load pointer).children.array ∧
      (decoder.load pointer).children.cap ≠ 0) ∨
      array = decoder.arrays.length) :
    ∀ entry ∈ rest, (decoder.load entry.1).children.array ≠ array := by
  intro entry member
  obtain ⟨_, _, apart, lower⟩ := spine
  rcases fresh with ⟨rfl, filled⟩ | rfl
  · exact apart filled entry member
  · have holds := lower.holds_of_mem member
    exact Nat.ne_of_lt (holds.fits.array_lt holds.cap_ne_zero)

end

end Spine

/-! ### Opening an element -/

section Open

variable {decoder : Decoder} {frozen : List Nat}

/-- The element as a new child of the innermost one. -/
theorem Spine.open {pointer : Pointer} {level : Level} {rest : List (Pointer × Level)}
    (spine : Spine decoder frozen 0 ((pointer, level) :: rest))
    (bound : ∀ array ∈ frozen, array < decoder.arrays.length) {name : Name} {attrs : List Attr}
    {arrays : Memory XMLElement} {children : Slice}
    (appended : Slices.Appended decoder.arrays (decoder.load pointer).children
      ⟨name, attrs, "", Slice.nil⟩ arrays children) :
    let next := { decoder with arrays }.store { decoder.load pointer with children } pointer
    let opened := Pointer.slot children.array (children.len - 1)
    next.load opened = ⟨name, attrs, "", Slice.nil⟩ ∧
    Spine next frozen 0 ((opened, ⟨name, attrs, []⟩) :: (pointer, level) :: rest) ∧
    ∀ array ∈ frozen, array < next.arrays.length := by
  intro next opened
  have loadTop : next.load pointer = { decoder.load pointer with children } :=
    spine.load_top appended.others _
  have clear := spine.array_apart appended.array
  have holds := spine.1
  have notFrozen : children.array ∉ frozen := by
    rcases appended.array with ⟨same, filled⟩ | isNew
    · rw [same]
      exact holds.live filled
    · intro member
      exact absurd (bound _ member) (by omega)
  have isCount : (decoder.load pointer).children.len = level.childCount := holds.len
  have isOpened : opened = .slot children.array level.childCount := by
    simp only [opened, appended.len, isCount, Nat.add_sub_cancel]
  -- the array of the new element is not the one that the store writes to
  have sameChildren : next.arrays[children.array]? = arrays[children.array]? :=
    spine.store_other arrays _ clear
  have loadOpened : next.load opened = ⟨name, attrs, "", Slice.nil⟩ := by
    have found := appended.last
    rw [isOpened, Decoder.load_slot, Slices.read_congr sameChildren, ← isCount, found,
      Option.getD_some]
  have frozenSame : ∀ array ∈ frozen, array ∈ frozen ∧
      next.arrays[array]? = decoder.arrays[array]? := by
    intro array member
    have lower := fun entry (there : entry ∈ rest) => spine.2.2.2.holds_of_mem there
    refine ⟨member, (spine.store_other arrays _ fun entry there same => ?_).trans ?_⟩
    · exact (lower entry there).live (lower entry there).cap_ne_zero (same ▸ member)
    · exact appended.others array (bound array member) fun filled same =>
        holds.live filled (same ▸ member)
  have growth : decoder.arrays.length ≤ next.arrays.length := by
    have := appended.length
    cases pointer <;> simpa only [next, Decoder.store, Slices.length_write] using this
  have kept : Kept decoder next rest := spine.kept appended.others _
  refine ⟨loadOpened, ⟨?_, ?_, ?_, ?_, kept.located spine.2.1, ?_, ?_⟩, fun array member =>
    Nat.lt_of_lt_of_le (bound array member) growth⟩
  · -- the new element has no children
    constructor <;> rw [loadOpened]
    case fits => exact Fits.nil _
    case len => rfl
    case done => exact trivial
    case live => exact fun filled => absurd rfl filled
  · simp only [Located, loadTop, isOpened]
  · intro filled
    rw [loadOpened] at filled
    exact absurd rfl filled
  · -- the element it belongs to has one child more
    constructor <;> rw [loadTop]
    case name => exact holds.name
    case attrs => exact holds.attrs
    case content => exact holds.content
    case fits => exact appended.fits.congr fun _ => sameChildren
    case len => rw [appended.len, isCount]
    case done =>
      have same : contents next.arrays children = contents decoder.arrays
          (decoder.load pointer).children ++
          [⟨name, attrs, "", Slice.nil⟩] := by
        rw [← appended.contents]
        exact Slices.contents_congr fun _ => sameChildren
      have size : (contents decoder.arrays (decoder.load pointer).children).length =
          level.childCount :=
        holds.fits.length_contents.trans isCount
      have done := holds.done
      rw [same, take_append_of_le_length (by omega)]
      exact DenotesAll.congr frozenSame _ done
    case live => exact fun _ => notFrozen
  · intro _ entry member
    rw [loadTop, kept.loads entry member]
    exact clear entry member
  · exact spine.2.2.2.congr kept frozenSame fun entry member => (spine.2.2.2.holds_of_mem member).live

end Open

/-! ### Closing an element -/

section Close

variable {decoder : Decoder} {frozen : List Nat}

def frozenWith (element : XMLElement) (frozen : List Nat) : List Nat :=
  if element.children.cap = 0 then frozen else element.children.array :: frozen

theorem mem_frozenWith {element : XMLElement} {array : Nat}
    (member : array ∈ frozenWith element frozen) :
    array ∈ frozen ∨ (element.children.cap ≠ 0 ∧ array = element.children.array) := by
  rw [frozenWith] at member
  split at member
  · exact .inl member
  · rcases mem_cons.mp member with rfl | old
    · exact .inr ⟨‹_›, rfl⟩
    · exact .inl old

theorem subset_frozenWith {element : XMLElement} {array : Nat} (member : array ∈ frozen) :
    array ∈ frozenWith element frozen := by
  rw [frozenWith]
  split
  · exact member
  · exact mem_cons_of_mem _ member

theorem Holds.denotes {pointer : Pointer} {level : Level}
    (holds : Holds decoder frozen pointer level 0) {later : Memory XMLElement} {content : String}
    (same : ∀ array ∈ frozenWith (decoder.load pointer) frozen,
      later[array]? = decoder.arrays[array]?) :
    Denotes later (frozenWith (decoder.load pointer) frozen)
      (.node level.name level.attrs content (Node.treesAll level.done))
      { decoder.load pointer with content } := by
  have filled : (decoder.load pointer).children.len ≠ 0 →
      (decoder.load pointer).children.array ∈ frozenWith (decoder.load pointer) frozen := by
    intro some
    have := holds.fits.within
    rw [frozenWith, if_neg (by omega)]
    exact mem_cons_self
  refine ⟨holds.name, holds.attrs, rfl, filled, ?_⟩
  have all : (contents decoder.arrays (decoder.load pointer).children).take level.childCount =
      contents decoder.arrays (decoder.load pointer).children :=
    take_of_length_le (by rw [holds.fits.length_contents, holds.len]; omega)
  have done := holds.done
  rw [all] at done
  rw [show contents later ({ decoder.load pointer with content } : XMLElement).children =
    contents decoder.arrays (decoder.load pointer).children from
      Slices.contents_congr fun some => same _ (filled some)]
  exact DenotesAll.congr (fun array member =>
    ⟨subset_frozenWith member, same array (subset_frozenWith member)⟩) _ done

/-- The innermost element closes and is a finished child of the one below. -/
theorem Spine.close {pointer below : Pointer} {level under : Level} {rest : List (Pointer × Level)}
    (spine : Spine decoder frozen 0 ((pointer, level) :: (below, under) :: rest))
    (bound : ∀ array ∈ frozen, array < decoder.arrays.length) {content : String}
    (isContent : content = if isWord level.attrs then Node.textAll level.done else "") :
    let next := decoder.store { decoder.load pointer with content } pointer
    Spine next (frozenWith (decoder.load pointer) frozen) 0
      ((below, { under with done :=
        under.done ++ [.element level.name level.attrs level.done] }) :: rest) ∧
    ∀ array ∈ frozenWith (decoder.load pointer) frozen, array < next.arrays.length := by
  intro next
  have holds := spine.1
  have lower := spine.2.2.2
  have apart := spine.2.2.1
  have lowerHolds : Holds decoder frozen below under 1 := lower.1
  have keeps : Kept decoder next ((below, under) :: rest) := spine.kept (fun _ _ _ => rfl) _
  have loadTop : next.load pointer = { decoder.load pointer with content } :=
    spine.load_top (fun _ _ _ => rfl) _
  have located : pointer = .slot (decoder.load below).children.array under.childCount := spine.2.1
  have loadBelow : next.load below = decoder.load below := keeps.loads (below, under) mem_cons_self
  -- neither the frozen arrays nor the one of the closed element are written
  have live : ∀ entry ∈ (below, under) :: rest,
      (decoder.load entry.1).children.array ∉ frozenWith (decoder.load pointer) frozen := by
    intro entry member frozenHere
    have entryHolds := lower.holds_of_mem member
    rcases mem_frozenWith frozenHere with old | ⟨filled, isOwn⟩
    · exact entryHolds.live entryHolds.cap_ne_zero old
    · exact apart filled entry member isOwn
  have same : ∀ array ∈ frozenWith (decoder.load pointer) frozen,
      next.arrays[array]? = decoder.arrays[array]? :=
    fun array frozenHere => spine.store_other decoder.arrays _ fun entry member isArray =>
      live entry member (isArray ▸ frozenHere)
  have kept : ∀ array ∈ frozen, array ∈ frozenWith (decoder.load pointer) frozen ∧
      next.arrays[array]? = decoder.arrays[array]? :=
    fun array member => ⟨subset_frozenWith member, same array (subset_frozenWith member)⟩
  have denotes : Denotes next.arrays (frozenWith (decoder.load pointer) frozen)
      (.node level.name level.attrs content (Node.treesAll level.done))
          { decoder.load pointer with content } :=
    holds.denotes same
  have count : Level.childCount { under with done :=
    under.done ++ [.element level.name level.attrs level.done] } =
      under.childCount + 1 := by
    simp [Level.childCount, Node.treesAll, Node.trees]
  refine ⟨⟨?_, keeps.tail.located lower.2.1, keeps.tail.apart loadBelow lower.2.2.1, ?_⟩, ?_⟩
  · constructor <;> rw [loadBelow]
    case name => exact lowerHolds.name
    case attrs => exact lowerHolds.attrs
    case content => exact lowerHolds.content
    case fits => exact keeps.fits (below, under) mem_cons_self
    case len => rw [count, lowerHolds.len]
    case done =>
      have fitsBelow : Fits next.arrays (decoder.load below).children :=
        keeps.fits (below, under) mem_cons_self
      obtain ⟨value, found, isContents⟩ := Slices.read_last fitsBelow lowerHolds.len
      have isValue : value = { decoder.load pointer with content } := by
        have here : next.load pointer = value := by
          rw [located, Decoder.load_slot, found, Option.getD_some]
        exact here.symm.trans loadTop
      have prior : (contents next.arrays (decoder.load below).children).take under.childCount =
          (contents decoder.arrays (decoder.load below).children).take under.childCount :=
        keeps.takes (below, under) mem_cons_self
      rw [count, take_of_length_le (by rw [fitsBelow.length_contents, lowerHolds.len]), isContents,
        prior, isValue]
      rw [isContent] at denotes ⊢
      simpa [Node.treesAll, Node.trees] using (DenotesAll.congr kept _ lowerHolds.done).concat denotes
    case live => exact fun _ => live (below, under) mem_cons_self
  · exact lower.2.2.2.congr keeps.tail kept fun entry member _ => live entry (mem_cons_of_mem _ member)
  · intro array member
    simp only [next, located, Decoder.store_slot, Slices.length_write]
    rcases mem_frozenWith member with old | ⟨filled, rfl⟩
    · exact bound array old
    · exact holds.fits.array_lt filled

end Close

end Scribe.Hocr
