import Scribe.Data.Fenwick
import Mathlib.Data.List.Sort
import Mathlib.Data.List.Dedup
import Mathlib.Order.Lattice.Nat

/-! An index of intervals that answers which of the intervals added so far that
meet a query has the least order.

The endpoints are known when the index is built. The starts are the positions of
one binary indexed tree; every node of it holds a second tree over the ends of the
intervals below the node, and every cell of that tree holds a least order.
-/

set_option autoImplicit false

namespace Scribe

open Fenwick List

/-! ## Bisection -/

/-- The first position at which a test that holds on a beginning of the list fails. -/
def bisect {α : Type} (goesRight : α → Bool) (values : List α) (low high : Nat) : Nat :=
  if _nonempty : low < high then
    let middle := (low + high) / 2
    if values[middle]?.any goesRight then bisect goesRight values (middle + 1) high
    else bisect goesRight values low middle
  else low
termination_by high - low

section
variable {α : Type} {goesRight : α → Bool} {values : List α}

section
variable (ordered : values.Pairwise fun a b => goesRight b → goesRight a)
include ordered

/-- On a list whose test holds on a beginning, that beginning has as many entries as pass. -/
theorem goesRight_iff_lt_countP {position : Nat} {value : α} (found : values[position]? = some value) :
    goesRight value ↔ position < values.countP goesRight := by
  induction values generalizing position with
  | nil => simp at found
  | cons first rest ih =>
    obtain ⟨early, orderedRest⟩ := pairwise_cons.mp ordered
    cases position with
    | zero =>
      obtain rfl : first = value := by simpa using found
      by_cases passes : goesRight first
      · simp [passes]
      · have none : rest.countP goesRight = 0 :=
          countP_eq_zero.mpr fun later member right => passes (early later member right)
        simp [passes, none]
    | succ position =>
      have foundRest : rest[position]? = some value := by simpa using found
      have later := mem_of_getElem? foundRest
      rw [ih orderedRest foundRest, countP_cons]
      by_cases passes : goesRight first
      · simp [passes]
      · have none : rest.countP goesRight = 0 :=
          countP_eq_zero.mpr fun value member right => passes (early value member right)
        simp [passes, none]

theorem bisect_eq_countP_of_bounds
    {low high : Nat} (below : low ≤ values.countP goesRight) (above : values.countP goesRight ≤ high)
    (inside : high ≤ values.length) : bisect goesRight values low high = values.countP goesRight := by
  fun_induction bisect goesRight values low high with
  | case1 low high _ middle right ih =>
    cases found : values[middle]? with
    | none => simp [found] at right
    | some value =>
      have := (goesRight_iff_lt_countP ordered found).mp (by simpa [found] using right)
      exact ih (by omega) above inside
  | case2 low high nonempty middle left ih =>
    have lower : middle < values.length := by omega
    have found : values[middle]? = some (values[middle]) := getElem?_eq_getElem lower
    have fails : ¬ middle < values.countP goesRight := by
      rw [← goesRight_iff_lt_countP ordered found]
      simpa [found] using left
    exact ih below (by omega) (by omega)
  | case3 low high empty => omega

theorem bisect_eq_countP : bisect goesRight values 0 values.length = values.countP goesRight :=
  bisect_eq_countP_of_bounds ordered (by omega) countP_le_length le_rfl

end

end

section
variable {K : Type} [LinearOrder K]

def ascendingLowerBound (values : List K) (target : K) : Nat :=
  bisect (· < target) values 0 values.length

def ascendingUpperBound (values : List K) (target : K) : Nat :=
  bisect (· ≤ target) values 0 values.length

def descendingLowerBound (values : List K) (target : K) : Nat :=
  bisect (target < ·) values 0 values.length

def descendingPrefixLength (values : List K) (minimum : K) : Nat :=
  bisect (minimum ≤ ·) values 0 values.length

def ascending (values : List K) : List K := values.dedup.insertionSort (· ≤ ·)

def descending (values : List K) : List K := values.dedup.insertionSort (· ≥ ·)

@[simp] theorem mem_ascending {values : List K} {value : K} : value ∈ ascending values ↔
      value ∈ values := by
  simp [ascending]

@[simp] theorem mem_descending {values : List K} {value : K} : value ∈ descending values ↔
      value ∈ values := by
  simp [descending]

theorem pairwise_ascending (values : List K) : (ascending values).Pairwise (· ≤ ·) :=
  pairwise_insertionSort _ _

theorem pairwise_descending (values : List K) : (descending values).Pairwise (· ≥ ·) :=
  pairwise_insertionSort _ _

theorem ascendingLowerBound_eq (values : List K) (target : K) :
    ascendingLowerBound (ascending values) target = (ascending values).countP (· < target) :=
  bisect_eq_countP ((pairwise_ascending values).imp fun le later => by
    simp only [decide_eq_true_eq] at later ⊢
    exact lt_of_le_of_lt le later)

theorem ascendingUpperBound_eq (values : List K) (target : K) :
    ascendingUpperBound (ascending values) target = (ascending values).countP (· ≤ target) :=
  bisect_eq_countP ((pairwise_ascending values).imp fun le later => by
    simp only [decide_eq_true_eq] at later ⊢
    exact le.trans later)

theorem descendingLowerBound_eq (values : List K) (target : K) :
    descendingLowerBound (descending values) target = (descending values).countP (target < ·) :=
  bisect_eq_countP ((pairwise_descending values).imp fun ge later => by
    simp only [decide_eq_true_eq] at later ⊢
    exact lt_of_lt_of_le later ge)

theorem descendingPrefixLength_eq (values : List K) (minimum : K) :
    descendingPrefixLength (descending values) minimum = (descending values).countP (minimum ≤ ·) :=
  bisect_eq_countP ((pairwise_descending values).imp fun ge later => by
    simp only [decide_eq_true_eq] at later ⊢
    exact le_trans later ge)

theorem countP_lt_lt_countP_le_iff {values : List K} {value bound : K} (member : value ∈ values) :
    values.countP (· < value) < values.countP (· ≤ bound) ↔ value ≤ bound := by
  constructor
  · intro less
    by_contra beyond
    refine absurd less (not_lt.mpr (countP_mono_left fun other _ within => ?_))
    simp only [decide_eq_true_eq] at within ⊢
    exact lt_of_le_of_lt within (not_le.mp beyond)
  · intro within
    obtain ⟨before, after, rfl⟩ := append_of_mem member
    have front : before.countP (· < value) ≤ before.countP (· ≤ bound) :=
      countP_mono_left fun other _ less => by
        simp only [decide_eq_true_eq] at less ⊢
        exact less.le.trans within
    have back : after.countP (· < value) ≤ after.countP (· ≤ bound) :=
      countP_mono_left fun other _ less => by
        simp only [decide_eq_true_eq] at less ⊢
        exact less.le.trans within
    simp only [countP_append, countP_cons, lt_self_iff_false, decide_false, within, decide_true,
      if_true, Bool.false_eq_true, if_false]
    omega

end

/-! ## The index -/

structure IntervalPoint (K : Type) where
  start : K
  finish : K
  order : Nat

/-- The nested trees. `minimumOrders (outer, inner)` is the cell `inner` of the node
`outer`; a cell without an interval holds infinity. -/
structure IntervalOrderIndex (K : Type) where
  starts : List K
  endCoordinates : Nat → List K
  minimumOrders : Nat × Nat → WithTop Nat

section
variable {K : Type} [LinearOrder K]

def startRank (starts : List K) (start : K) : Nat := ascendingLowerBound starts start + 1

def pushEnd (finish : K) (ends : Nat → List K) (node : Nat) : Nat → List K :=
  Function.update ends node (ends node ++ [finish])

def collectEnds (starts : List K) (points : List (IntervalPoint K)) : Nat → List K :=
  points.foldl (fun ends point => (climb starts.length (startRank starts point.start)).foldl
    (pushEnd point.finish) ends)
    fun _ => []

def createIntervalOrderIndex (points : List (IntervalPoint K)) : IntervalOrderIndex K :=
  let starts := ascending (points.map (·.start))
  { starts := starts
    endCoordinates := fun node => descending (collectEnds starts points node)
    minimumOrders := fun _ => ⊤ }

namespace IntervalOrderIndex

def cellsOf (index : IntervalOrderIndex K) (point : IntervalPoint K) : List (Nat × Nat) :=
  (climb index.starts.length (startRank index.starts point.start)).flatMap fun outer =>
    let coordinates := index.endCoordinates outer
    (climb coordinates.length (descendingLowerBound coordinates point.finish + 1)).map (outer, ·)

def lowerCell (order : Nat) (orders : Nat × Nat → WithTop Nat) (cell : Nat × Nat) :
    Nat × Nat → WithTop Nat :=
  Function.update orders cell (min (orders cell) order)

def add (index : IntervalOrderIndex K) (point : IntervalPoint K) : IntervalOrderIndex K :=
  { index with minimumOrders :=
    (index.cellsOf point).foldl (lowerCell point.order) index.minimumOrders }

def cellsMeeting (index : IntervalOrderIndex K) (queryStart queryEnd : K) : List (Nat × Nat) :=
  (descend (ascendingUpperBound index.starts queryEnd)).flatMap fun outer =>
    (descend (descendingPrefixLength (index.endCoordinates outer) queryStart)).map (outer, ·)

def firstIntersecting (index : IntervalOrderIndex K) (queryStart queryEnd : K) : WithTop Nat :=
  (index.cellsMeeting queryStart queryEnd).foldl (fun result cell =>
    min result (index.minimumOrders cell)) ⊤

end IntervalOrderIndex

/-! ## What the cells hold -/

omit [LinearOrder K] in
theorem mem_foldl_pushEnd {nodes : List Nat} {finish value : K} {ends : Nat → List K} {node : Nat} :
    value ∈ nodes.foldl (pushEnd finish) ends node ↔ value ∈ ends node ∨ node ∈ nodes ∧
      value = finish := by
  induction nodes generalizing ends with
  | nil => simp
  | cons first rest ih =>
    rw [foldl_cons, ih]
    by_cases here : node = first
    · subst here
      simp [pushEnd]
      tauto
    · simp [pushEnd, here]

theorem mem_collectEnds {starts : List K} {points : List (IntervalPoint K)} {node : Nat} {value : K} :
    value ∈ collectEnds starts points node ↔
      ∃ point ∈ points, node ∈ climb starts.length (startRank starts point.start) ∧
        point.finish = value := by
  have folded : ∀ ends : Nat → List K,
      value ∈ points.foldl (fun ends point =>
          (climb starts.length (startRank starts point.start)).foldl (pushEnd point.finish)
            ends) ends node ↔
        value ∈ ends node ∨ ∃ point ∈ points,
          node ∈ climb starts.length (startRank starts point.start) ∧ point.finish = value := by
    induction points with
    | nil => simp
    | cons point rest ih =>
      intro ends
      rw [foldl_cons, ih, mem_foldl_pushEnd]
      simp only [exists_mem_cons_iff]
      tauto
  simpa [collectEnds] using folded fun _ => []

namespace IntervalOrderIndex

theorem lowerCell_le_iff {order bound : Nat} {orders : Nat × Nat → WithTop Nat}
    {cell at_ : Nat × Nat} :
    lowerCell order orders cell at_ ≤ bound ↔ orders at_ ≤ bound ∨ at_ = cell ∧ order ≤ bound := by
  by_cases here : at_ = cell
  · subst here
    simp [lowerCell]
  · simp [lowerCell, here]

theorem foldl_lowerCell_le_iff {order bound : Nat} {cells : List (Nat × Nat)}
    {orders : Nat × Nat → WithTop Nat} {at_ : Nat × Nat} :
    cells.foldl (lowerCell order) orders at_ ≤ bound ↔ orders at_ ≤ bound ∨ at_ ∈ cells ∧
      order ≤ bound := by
  induction cells generalizing orders with
  | nil => simp
  | cons cell rest ih =>
    rw [foldl_cons, ih, lowerCell_le_iff, mem_cons]
    tauto

theorem foldl_add_coordinates (added : List (IntervalPoint K)) (index : IntervalOrderIndex K) :
    (added.foldl add index).starts = index.starts ∧
      (added.foldl add index).endCoordinates = index.endCoordinates := by
  induction added generalizing index with
  | nil => exact ⟨rfl, rfl⟩
  | cons point rest ih => exact ih (index.add point)

theorem foldl_add_le_iff {added : List (IntervalPoint K)} {index : IntervalOrderIndex K}
    {cell : Nat × Nat} {bound : Nat} :
    (added.foldl add index).minimumOrders cell ≤ bound ↔
      index.minimumOrders cell ≤ bound ∨ ∃ point ∈ added, cell ∈ index.cellsOf point ∧
      point.order ≤ bound := by
  induction added generalizing index with
  | nil => simp
  | cons point rest ih =>
    have same : (index.add point).cellsOf = index.cellsOf := rfl
    rw [foldl_cons, ih, same, exists_mem_cons_iff, add, foldl_lowerCell_le_iff]
    tauto

theorem foldl_min_le_iff {orders : Nat × Nat → WithTop Nat} {cells : List (Nat × Nat)}
    {start : WithTop Nat} {bound : Nat} :
    cells.foldl (fun result cell => min result (orders cell)) start ≤ bound ↔
      start ≤ bound ∨ ∃ cell ∈ cells, orders cell ≤ bound := by
  induction cells generalizing start with
  | nil => simp
  | cons cell rest ih =>
    rw [foldl_cons, ih, min_le_iff, exists_mem_cons_iff]
    tauto

/-! ## Queries -/

section
variable {points : List (IntervalPoint K)} {point : IntervalPoint K} (known : point ∈ points)
include known

theorem startRank_le_iff (queryEnd : K) :
    startRank (createIntervalOrderIndex points).starts point.start ≤
        ascendingUpperBound (createIntervalOrderIndex points).starts queryEnd ↔
          point.start ≤ queryEnd := by
  have listed : point.start ∈ ascending (points.map (·.start)) := by
    simpa using ⟨point, known, rfl⟩
  simp only [createIntervalOrderIndex, startRank, ascendingLowerBound_eq, ascendingUpperBound_eq]
  exact countP_lt_lt_countP_le_iff listed

theorem endRank_le_iff {outer : Nat} (queryStart : K)
    (entered : outer ∈ climb (createIntervalOrderIndex points).starts.length
      (startRank (createIntervalOrderIndex points).starts point.start)) :
    descendingLowerBound ((createIntervalOrderIndex points).endCoordinates outer) point.finish + 1 ≤
        descendingPrefixLength ((createIntervalOrderIndex points).endCoordinates outer) queryStart ↔
      queryStart ≤ point.finish := by
  simp only [createIntervalOrderIndex, descendingLowerBound_eq, descendingPrefixLength_eq] at entered ⊢
  generalize collected : collectEnds _ points outer = ends
  have listed : point.finish ∈ descending ends := by
    rw [mem_descending, ← collected, mem_collectEnds]
    exact ⟨point, known, entered, rfl⟩
  exact countP_lt_lt_countP_le_iff (K := Kᵒᵈ) listed

/-- A query reads a cell of an interval exactly when it meets the interval. -/
theorem cells_meet_iff (queryStart queryEnd : K) :
    (∃ cell ∈ (createIntervalOrderIndex points).cellsMeeting queryStart queryEnd,
        cell ∈ (createIntervalOrderIndex points).cellsOf point) ↔
      point.start ≤ queryEnd ∧ queryStart ≤ point.finish := by
  have outerBound : ascendingUpperBound (createIntervalOrderIndex points).starts queryEnd ≤
      (createIntervalOrderIndex points).starts.length := by
    simp only [createIntervalOrderIndex, ascendingUpperBound_eq]
    exact countP_le_length
  have innerBound : ∀ outer, descendingPrefixLength
      ((createIntervalOrderIndex points).endCoordinates outer) queryStart ≤
      ((createIntervalOrderIndex points).endCoordinates outer).length := by
    intro outer
    simp only [createIntervalOrderIndex, descendingPrefixLength_eq]
    exact countP_le_length
  simp only [cellsMeeting, cellsOf, mem_flatMap, mem_map]
  constructor
  · rintro ⟨cell, ⟨outer, outerRead, inner, innerRead, rfl⟩, outer', outerWritten, inner',
      innerWritten, same⟩
    obtain ⟨rfl, rfl⟩ := Prod.mk.inj same
    exact ⟨(startRank_le_iff known queryEnd).mp ((walks_meet_iff (by simp [startRank]) outerBound).mp
        ⟨_, outerRead, outerWritten⟩),
      (endRank_le_iff known queryStart outerWritten).mp ((walks_meet_iff (by omega) (innerBound _)).mp
        ⟨_, innerRead, innerWritten⟩)⟩
  · rintro ⟨starts, ends⟩
    obtain ⟨outer, outerRead, outerWritten⟩ :=
      (walks_meet_iff (by simp [startRank]) outerBound).mpr
        ((startRank_le_iff known queryEnd).mpr starts)
    obtain ⟨inner, innerRead, innerWritten⟩ := (walks_meet_iff (by omega) (innerBound outer)).mpr
      ((endRank_le_iff known queryStart outerWritten).mpr ends)
    exact ⟨(outer, inner), ⟨outer, outerRead, inner, innerRead, rfl⟩, outer, outerWritten, inner,
      innerWritten, rfl⟩

end

/-- A query answers the least order of the added intervals that meet it. -/
theorem firstIntersecting_le_iff {points added : List (IntervalPoint K)} (known : added ⊆ points)
    (queryStart queryEnd : K) (bound : Nat) :
    (added.foldl add (createIntervalOrderIndex points)).firstIntersecting queryStart queryEnd ≤ bound ↔
      ∃ point ∈ added, (point.start ≤ queryEnd ∧ queryStart ≤ point.finish) ∧ point.order ≤ bound := by
  obtain ⟨starts, ends⟩ := foldl_add_coordinates added (createIntervalOrderIndex points)
  have cells : (added.foldl add (createIntervalOrderIndex points)).cellsMeeting queryStart queryEnd =
      (createIntervalOrderIndex points).cellsMeeting queryStart queryEnd := by
    simp only [cellsMeeting, starts, ends]
  have empty : ∀ cell, ¬ (createIntervalOrderIndex points).minimumOrders cell ≤ bound := by
    intro cell
    simp [createIntervalOrderIndex]
  rw [firstIntersecting, foldl_min_le_iff, cells]
  simp only [top_le_iff, WithTop.natCast_ne_top, false_or, foldl_add_le_iff, empty]
  constructor
  · rintro ⟨cell, read, point, member, written, least⟩
    exact ⟨point, member, (cells_meet_iff (known member) queryStart queryEnd).mp
      ⟨cell, read, written⟩, least⟩
  · rintro ⟨point, member, meets, least⟩
    obtain ⟨cell, read, written⟩ := (cells_meet_iff (known member) queryStart queryEnd).mpr meets
    exact ⟨cell, read, point, member, written, least⟩

end IntervalOrderIndex

end

end Scribe
