import Scribe.Data.EditDistance

/-! The character distance that the editor shows after a save. -/

set_option autoImplicit false

namespace Scribe.Editor

open EditDistance

section
variable {α : Type*} [DecidableEq α]

def maxDistanceTextLength : Nat := 2000

/-- The first loop: both lists without the entries they start with together. -/
def dropCommon : List α → List α → List α × List α
  | x :: l, y :: r => if x = y then dropCommon l r else (x :: l, y :: r)
  | l, r => (l, r)

def dropCommonEnd (l r : List α) : List α × List α :=
  let rest := dropCommon l.reverse r.reverse
  (rest.1.reverse, rest.2.reverse)

/-- The cells of a row after its first: the row above from the cell before, and the cell to the
left. -/
def rowCells (x : α) : List α → List Nat → Nat → List Nat
  | y :: b, diagonal :: above :: previous, left =>
    let substitution := diagonal + if x = y then 0 else 1
    let cell := min (above + 1) (min (left + 1) substitution)
    cell :: rowCells x b (above :: previous) cell
  | _, _, _ => []

def nextRow (b : List α) (state : List Nat × Nat) (x : α) : List Nat × Nat :=
  (state.2 :: rowCells x b state.1 state.2, state.2 + 1)

def characterDistance (left right : List α) : Option Nat :=
  let rest := dropCommon left right
  let (a, b) := dropCommonEnd rest.1 rest.2
  if a.length = 0 then some b.length
  else if b.length = 0 then some a.length
  else if a.length > maxDistanceTextLength ∨ b.length > maxDistanceTextLength then none
  else (a.foldl (nextRow b) (List.range (b.length + 1), 1)).1[b.length]?

/-! ## What is removed -/

theorem dropCommon_eq (l r : List α) :
    ∃ common, l = common ++ (dropCommon l r).1 ∧ r = common ++ (dropCommon l r).2 := by
  fun_induction dropCommon l r with
  | case1 l y r ih =>
    obtain ⟨common, left, right⟩ := ih
    exact ⟨y :: common, congrArg (y :: ·) left, congrArg (y :: ·) right⟩
  | case2 => exact ⟨[], rfl, rfl⟩
  | case3 => exact ⟨[], rfl, rfl⟩

theorem dropCommon_apart (l r : List α) (x : α) (l' r' : List α) :
    ¬ ((dropCommon l r).1 = x :: l' ∧ (dropCommon l r).2 = x :: r') := by
  fun_induction dropCommon l r with
  | case1 _ _ _ ih => exact ih
  | case2 a l b r apart =>
    rintro ⟨left, right⟩
    exact apart ((List.cons.inj left).1.trans (List.cons.inj right).1.symm)
  | case3 l r short =>
    rintro ⟨left, right⟩
    exact short _ _ _ _ left right

theorem dropCommonEnd_eq (l r : List α) :
    ∃ ending, l = (dropCommonEnd l r).1 ++ ending ∧ r = (dropCommonEnd l r).2 ++ ending := by
  obtain ⟨common, left, right⟩ := dropCommon_eq l.reverse r.reverse
  refine ⟨common.reverse, ?_, ?_⟩
  · rw [dropCommonEnd, ← List.reverse_append, ← left, List.reverse_reverse]
  · rw [dropCommonEnd, ← List.reverse_append, ← right, List.reverse_reverse]

theorem dropCommonEnd_apart (l r : List α) (x : α) (l' r' : List α) :
    ¬ ((dropCommonEnd l r).1 = l' ++ [x] ∧ (dropCommonEnd l r).2 = r' ++ [x]) := by
  rintro ⟨left, right⟩
  refine dropCommon_apart l.reverse r.reverse x l'.reverse r'.reverse ⟨?_, ?_⟩
  · simpa [dropCommonEnd] using congrArg List.reverse left
  · simpa [dropCommonEnd] using congrArg List.reverse right

/-! ## The rows -/

def distances (p q : List α) : List α → List Nat
  | [] => [distance p q]
  | y :: b => distance p q :: distances p (y :: q) b

theorem distances_nil (q b : List α) : distances [] q b = List.range' q.length (b.length + 1) := by
  induction b generalizing q with
  | nil => simp [distances]
  | cons y b ih =>
    rw [distances, ih, distance_nil_left]
    rfl

theorem rowCells_distances (x : α) (p q b : List α) :
    distance (x :: p) q :: rowCells x b (distances p q b)
    (distance (x :: p) q) = distances (x :: p) q b := by
  induction b generalizing q with
  | nil => rfl
  | cons y b ih =>
    have cell : distance (x :: p) (y :: q) = min (distance p (y :: q) + 1)
        (min (distance (x :: p) q + 1) (distance p q + if x = y then 0 else 1)) := by rw [distance]
    -- The row above goes on with the distance to the longer text.
    obtain ⟨previous, above⟩ : ∃ previous,
        distances p (y :: q) b = distance p (y :: q) :: previous := by
      cases b with
      | nil => exact ⟨_, rfl⟩
      | cons => exact ⟨_, rfl⟩
    rw [distances, distances, ← ih, above]
    simp only [rowCells, ← cell]

theorem foldl_nextRow (p a b : List α) :
    a.foldl (nextRow b) (distances p [] b, p.length + 1) =
      (distances (a.reverse ++ p) [] b, (a.reverse ++ p).length + 1) := by
  induction a generalizing p with
  | nil => rfl
  | cons x a ih =>
    have row : nextRow b (distances p [] b, p.length + 1) x = (distances (x :: p) [] b,
        (x :: p).length + 1) := by
      rw [nextRow, ← rowCells_distances, distance_nil_right]
      rfl
    rw [List.foldl_cons, row, ih, List.reverse_cons, List.append_assoc]
    rfl

theorem distances_last (p q b : List α) :
    (distances p q b)[b.length]? = some (distance p (b.reverse ++ q)) := by
  induction b generalizing q with
  | nil => rfl
  | cons y b ih => simpa [distances] using ih (y :: q)

theorem rows_distance (a b : List α) :
    (a.foldl (nextRow b) (List.range (b.length + 1), 1)).1[b.length]? = some (distance a b) := by
  have start : List.range (b.length + 1) = distances [] [] b := by
    rw [distances_nil, List.range_eq_range']
    rfl
  have rows := foldl_nextRow [] a b
  rw [start, show 1 = ([] : List α).length + 1 from rfl, rows, distances_last, List.append_nil,
    List.append_nil, distance_reverse]

/-- The character distance is the edit distance; it is missing only for two long remainders. -/
theorem characterDistance_isLeast (left right : List α) :
    (∀ n, characterDistance left right = some n → IsLeast {n | Edits n left right} n) ∧
    (characterDistance left right = none →
      ∃ common a b ending, left = common ++ (a ++ ending) ∧ right = common ++ (b ++ ending) ∧
        (∀ x l r, ¬ (a ++ ending = x :: l ∧ b ++ ending = x :: r)) ∧
        (∀ x l r, ¬ (a = l ++ [x] ∧ b = r ++ [x])) ∧
        a ≠ [] ∧ b ≠ [] ∧ (maxDistanceTextLength < a.length ∨ maxDistanceTextLength < b.length)) := by
  obtain ⟨common, isLeft, isRight⟩ := dropCommon_eq left right
  have apart := dropCommon_apart left right
  rw [characterDistance]
  generalize dropCommon left right = rest at *
  obtain ⟨l, r⟩ := rest
  obtain ⟨ending, leftEnd, rightEnd⟩ := dropCommonEnd_eq l r
  have apartEnd := dropCommonEnd_apart l r
  generalize dropCommonEnd l r = rest at *
  obtain ⟨a, b⟩ := rest
  -- Common ends cost nothing, so the distance is that of what is left.
  have same : distance left right = distance a b := by
    rw [isLeft, isRight, distance_append_left, leftEnd, rightEnd, distance_append_right]
  have least : ∀ n, n = distance a b → IsLeast {n | Edits n left right} n := fun n isDistance => by
    rw [isDistance, ← same]
    exact isLeast_distance left right
  simp only [rows_distance]
  split
  · rename_i empty
    refine ⟨fun n found => least n ?_, fun none => by cases none⟩
    rw [← Option.some.inj found, List.length_eq_zero_iff.mp empty, distance_nil_left]
  split
  · rename_i empty
    refine ⟨fun n found => least n ?_, fun none => by cases none⟩
    rw [← Option.some.inj found, List.length_eq_zero_iff.mp empty, distance_nil_right]
  split
  · rename_i left right long
    refine ⟨fun _ found => (by cases found), fun _ =>
      ⟨common, a, b, ending, ?_, ?_, ?_, apartEnd, ?_, ?_, long⟩⟩
    · rw [isLeft, leftEnd]
    · rw [isRight, rightEnd]
    · rw [← leftEnd, ← rightEnd]
      exact apart
    · simpa using left
    · simpa using right
  · exact ⟨fun n found => least n (Option.some.inj found).symm, fun none => by cases none⟩

end

end Scribe.Editor
