import Mathlib.Algebra.Order.Group.Int
import Mathlib.Order.MinMax

/-! Boxes that are resized by their corners.

Both axes are treated alike, so every operation is given for one axis and applied to both.
-/

set_option autoImplicit false

namespace Scribe.Editor

structure ImageBBox where
  x : Int
  y : Int
  w : Int
  h : Int
  deriving DecidableEq

def normalizeAxis (start extent : Int) : Int × Int :=
  if extent < 0 then (max 0 (start + extent), max 1 (extent.natAbs : Int))
  else (max 0 start, max 1 extent)

def normalizeImageBBox (box : ImageBBox) : ImageBBox :=
  ⟨(normalizeAxis box.x box.w).1, (normalizeAxis box.y box.h).1, (normalizeAxis box.x box.w).2,
    (normalizeAxis box.y box.h).2⟩

inductive BBoxHandle where
  | nw
  | ne
  | sw
  | se
  deriving DecidableEq

def BBoxHandle.isNorth : BBoxHandle → Bool
  | .nw | .ne => true
  | .sw | .se => false

def BBoxHandle.isWest : BBoxHandle → Bool
  | .nw | .sw => true
  | .ne | .se => false

def resizeAxis (low : Bool) (delta : Int) (axis : Int × Int) : Int × Int :=
  if low then (axis.1 + delta, axis.2 - delta) else (axis.1, axis.2 + delta)

def resizeBBoxFromHandle (box : ImageBBox) (handle : BBoxHandle) (dx dy : Int) : ImageBBox :=
  let box := normalizeImageBBox box
  let (x, w) := resizeAxis handle.isWest dx (box.x, box.w)
  let (y, h) := resizeAxis handle.isNorth dy (box.y, box.h)
  normalizeImageBBox ⟨x, y, w, h⟩

def clampAxis (box outer : Int × Int) : Int × Int :=
  let extent := max 1 (min box.2 outer.2)
  (max outer.1 (min box.1 (outer.1 + outer.2 - extent)), extent)

def clampBBoxWithin (box container : ImageBBox) : ImageBBox :=
  let box := normalizeImageBBox box
  let outer := normalizeImageBBox container
  let (x, w) := clampAxis (box.x, box.w) (outer.x, outer.w)
  let (y, h) := clampAxis (box.y, box.h) (outer.y, outer.h)
  ⟨x, y, w, h⟩

/-! ## One axis -/

def dragAxis (low : Bool) (outerStart outerExtent start extent delta : Int) : Int × Int :=
  let dragged := resizeAxis low delta (normalizeAxis start extent)
  let resized := normalizeAxis dragged.1 dragged.2
  clampAxis (normalizeAxis resized.1 resized.2) (normalizeAxis outerStart outerExtent)

/-- The edge that is not dragged. -/
def anchor (low : Bool) (start extent : Int) : Int := if low then start + extent else start

def OnItsSide (low : Bool) (extent delta : Int) : Prop :=
  if low then delta < extent else 0 < extent + delta

def draggedEnd (low : Bool) (start extent delta : Int) : Int :=
  if low then
    if delta < extent then max (extent - delta) (max 0 start + extent)
    else max 0 start + max delta (extent + 1)
  else if extent + delta < 0 then max (max 0 start) (-extent - delta)
    else max 0 start + max 1 (extent + delta)

/-- A container that starts before the image is moved into it, and the box must not reach the part
that was cut off. -/
def StaysInside (low : Bool) (outerStart outerExtent start extent delta : Int) : Prop :=
  0 ≤ outerStart ∨ draggedEnd low start extent delta ≤ outerStart + outerExtent

/-- The dragged edge stays in the container, or the anchor is on the container's own edge. -/
def KeepsAnchor (low : Bool) (outerStart outerExtent start extent delta : Int) : Prop :=
  if 0 ≤ outerStart then
    if low then outerStart ≤ start + delta ∨ start + extent = outerStart + outerExtent
    else start + extent + delta ≤ outerStart + outerExtent ∨ start = outerStart
  else if low then 0 ≤ start ∧ 0 ≤ start + delta ∨ start < 0 ∧ max 0 delta = start + extent
  else 0 ≤ start

theorem normalizeAxis_of_pos {start extent : Int} (positive : 0 < extent) :
    normalizeAxis start extent = (max 0 start, extent) := by
  rw [normalizeAxis, if_neg (by omega), max_eq_right (by omega : (1 : Int) ≤ extent)]

section
variable {low : Bool} {outerStart outerExtent start extent delta : Int} (positive : 0 < extent)
include positive

theorem exists_dragged (low : Bool) (start delta : Int) : ∃ left size,
    normalizeAxis (resizeAxis low delta (max 0 start, extent)).1
      (resizeAxis low delta (max 0 start, extent)).2 = (left, size) ∧
      0 ≤ left ∧ 0 < size ∧ left + size = draggedEnd low start extent delta ∧
      (OnItsSide low extent delta →
        left = max 0 (max 0 start + if low then delta else 0) ∧ size = extent + if low then -delta
          else delta) := by
  cases low with
  | false =>
    simp only [resizeAxis, draggedEnd, OnItsSide, normalizeAxis, Bool.false_eq_true, if_false]
    split <;> exact ⟨_, _, rfl, by omega, by omega, by omega, by omega⟩
  | true =>
    simp only [resizeAxis, draggedEnd, OnItsSide, normalizeAxis, if_true]
    split <;> split <;> exact ⟨_, _, rfl, by omega, by omega, by omega, by omega⟩

variable (inside : outerStart ≤ start ∧ start + extent ≤ outerStart + outerExtent)
include inside

theorem dragAxis_eq {left size : Int}
    (dragged : normalizeAxis (resizeAxis low delta (max 0 start, extent)).1
      (resizeAxis low delta (max 0 start, extent)).2 =
      (left, size)) (nonneg : 0 ≤ left) (wide : 0 < size) :
    dragAxis low outerStart outerExtent start extent delta = clampAxis (left, size)
    (max 0 outerStart, outerExtent) := by
  simp only [dragAxis]
  rw [normalizeAxis_of_pos positive, dragged, normalizeAxis_of_pos wide,
    normalizeAxis_of_pos (by omega), max_eq_right nonneg]

theorem dragAxis_inside_iff : 0 < (dragAxis low outerStart outerExtent start extent delta).2 ∧
    ((outerStart ≤ (dragAxis low outerStart outerExtent start extent delta).1 ∧
      (dragAxis low outerStart outerExtent start extent delta).1 +
        (dragAxis low outerStart outerExtent start extent delta).2 ≤
        outerStart + outerExtent) ↔ StaysInside low outerStart outerExtent start extent delta) := by
  obtain ⟨left, size, dragged, nonneg, wide, ends, -⟩ := exists_dragged positive low start delta
  rw [dragAxis_eq positive inside dragged nonneg wide, StaysInside, ← ends]
  simp only [clampAxis]
  omega

theorem dragAxis_anchor_iff (side : OnItsSide low extent delta)
    (stays : StaysInside low outerStart outerExtent start extent delta) :
    (anchor low start extent = (dragAxis low outerStart outerExtent start extent delta).1 ∨
      anchor low start extent = (dragAxis low outerStart outerExtent start extent delta).1 +
        (dragAxis low outerStart outerExtent start extent delta).2) ↔
      KeepsAnchor low outerStart outerExtent start extent delta := by
  obtain ⟨left, size, dragged, nonneg, wide, ends, asked⟩ := exists_dragged positive low start delta
  obtain ⟨isLeft, isSize⟩ := asked side
  rw [StaysInside, ← ends] at stays
  rw [dragAxis_eq positive inside dragged nonneg wide]
  cases low with
  | false =>
    simp only [clampAxis, anchor, KeepsAnchor, OnItsSide, Bool.false_eq_true, if_false] at *
    split <;> omega
  | true =>
    simp only [clampAxis, anchor, KeepsAnchor, OnItsSide, if_true] at *
    split <;> omega

end

/-! ## Corners -/

/-- Inside the container, of positive size, and with the opposite corner in place unless the drag
crosses it. -/
def Anchored (container box : ImageBBox) (handle : BBoxHandle) (dx dy : Int)
    (result : ImageBBox) : Prop :=
  (0 < result.w ∧ 0 < result.h) ∧
  (container.x ≤ result.x ∧ result.x + result.w ≤ container.x + container.w) ∧
  (container.y ≤ result.y ∧ result.y + result.h ≤ container.y + container.h) ∧
  (OnItsSide handle.isWest box.w dx ∧ OnItsSide handle.isNorth box.h dy →
    (anchor handle.isWest box.x box.w = result.x ∨
      anchor handle.isWest box.x box.w = result.x + result.w) ∧
    (anchor handle.isNorth box.y box.h = result.y ∨
      anchor handle.isNorth box.y box.h = result.y + result.h))

theorem resize_anchored_iff (container box : ImageBBox) (handle : BBoxHandle) (dx dy : Int)
    (wide : 0 < box.w) (tall : 0 < box.h)
    (insideX : container.x ≤ box.x ∧ box.x + box.w ≤ container.x + container.w)
    (insideY : container.y ≤ box.y ∧ box.y + box.h ≤ container.y + container.h) :
    Anchored container box handle dx dy
      (clampBBoxWithin (resizeBBoxFromHandle box handle dx dy) container) ↔
      StaysInside handle.isWest container.x container.w box.x box.w dx ∧
      StaysInside handle.isNorth container.y container.h box.y box.h dy ∧
      (OnItsSide handle.isWest box.w dx ∧ OnItsSide handle.isNorth box.h dy →
        KeepsAnchor handle.isWest container.x container.w box.x box.w dx ∧
        KeepsAnchor handle.isNorth container.y container.h box.y box.h dy) := by
  obtain ⟨positiveX, insideX_iff⟩ := @dragAxis_inside_iff handle.isWest _ _ _ _ dx wide insideX
  obtain ⟨positiveY, insideY_iff⟩ := @dragAxis_inside_iff handle.isNorth _ _ _ _ dy tall insideY
  have anchorX := @dragAxis_anchor_iff handle.isWest _ _ _ _ dx wide insideX
  have anchorY := @dragAxis_anchor_iff handle.isNorth _ _ _ _ dy tall insideY
  rw [Anchored, ← insideX_iff, ← insideY_iff]
  rw [← insideX_iff] at anchorX
  rw [← insideY_iff] at anchorY
  constructor
  · rintro ⟨-, inX, inY, kept⟩
    refine ⟨inX, inY, fun sides => ?_⟩
    rw [← anchorX sides.1 inX, ← anchorY sides.2 inY]
    exact kept sides
  · rintro ⟨inX, inY, kept⟩
    refine ⟨⟨positiveX, positiveY⟩, inX, inY, fun sides => ?_⟩
    have keeps := kept sides
    rwa [← anchorX sides.1 inX, ← anchorY sides.2 inY] at keeps

/-- A word of ten pixels in a line of twenty: its right edge is dragged five to the right. -/
theorem resize_anchored_word :
    Anchored ⟨0, 0, 20, 10⟩ ⟨5, 0, 10, 10⟩ .se 5 0
      (clampBBoxWithin (resizeBBoxFromHandle ⟨5, 0, 10, 10⟩ .se 5 0) ⟨0, 0, 20, 10⟩) :=
  (resize_anchored_iff _ _ _ _ _ (by decide) (by decide) (by decide) (by decide)).mpr
    ⟨.inl (by decide), .inl (by decide), fun _ => ⟨.inl (by decide), .inl (by decide)⟩⟩

/-- The left edge is dragged ten pixels to the left, past the edge of the image: the right edge
moves from 15 to 20. -/
theorem resize_moves_opposite_corner :
    clampBBoxWithin (resizeBBoxFromHandle ⟨5, 0, 10, 10⟩ .nw (-10) 0) ⟨0, 0, 100, 10⟩ =
      ⟨0, 0, 20, 10⟩ ∧
    ¬ Anchored ⟨0, 0, 100, 10⟩ ⟨5, 0, 10, 10⟩ .nw (-10) 0
      (clampBBoxWithin (resizeBBoxFromHandle ⟨5, 0, 10, 10⟩ .nw (-10) 0) ⟨0, 0, 100, 10⟩) := by
  have result : clampBBoxWithin (resizeBBoxFromHandle ⟨5, 0, 10, 10⟩ .nw (-10) 0) ⟨0, 0, 100, 10⟩ =
    ⟨0, 0, 20, 10⟩ := by decide
  refine ⟨result, fun anchored => ?_⟩
  rw [result] at anchored
  obtain ⟨-, -, -, kept⟩ := anchored
  exact absurd (kept ⟨by unfold OnItsSide; decide, by unfold OnItsSide; decide⟩).1 (by decide)

end Scribe.Editor
