import Mathlib.Data.Nat.Bitwise
import Mathlib.Data.List.Count
import Mathlib.Order.WithBot
import Mathlib.Tactic.Ring

/-! Binary indexed trees.

Node `n` of the tree stands for the positions above `n - lowbit n` up to `n`. An
update of a position climbs through the nodes that stand for it; a query descends
through nodes that cut the positions up to a bound into disjoint ranges. The two
walks meet exactly when the position lies below the bound.
-/

set_option autoImplicit false

namespace Scribe.Fenwick

/-- The lowest set bit, `n & -n`: in two's complement `-n` is the complement of `n - 1`. -/
def lowbit (n : Nat) : Nat := Nat.ldiff n (n - 1)

theorem exists_lowest_bit {n : Nat} (positive : 0 < n) : ∃ t high, n = 2 ^ (t + 1) * high + 2 ^ t := by
  induction n using Nat.strongRecOn with
  | _ n ih =>
    rcases Nat.mod_two_eq_zero_or_one n with even | odd
    · obtain ⟨t, high, split⟩ := ih (n / 2) (by omega) (by omega)
      refine ⟨t + 1, high, ?_⟩
      have doubled : n = 2 * (n / 2) := by omega
      rw [doubled, split]
      ring
    · exact ⟨0, n / 2, by simp; omega⟩

theorem lowbit_split (t high : Nat) : lowbit (2 ^ (t + 1) * high + 2 ^ t) = 2 ^ t := by
  have below : 2 ^ t < 2 ^ (t + 1) := Nat.pow_lt_pow_right (by omega) (by omega)
  have positive : 0 < 2 ^ t := Nat.two_pow_pos t
  have before : 2 ^ (t + 1) * high + 2 ^ t - 1 = 2 ^ (t + 1) * high + (2 ^ t - 1) := by omega
  apply Nat.eq_of_testBit_eq
  intro i
  rw [lowbit, before, Nat.testBit_ldiff, Nat.testBit_two_pow_mul_add _ below,
    Nat.testBit_two_pow_mul_add _ (by omega), Nat.testBit_two_pow, Nat.testBit_two_pow_sub_one]
  by_cases low : i < t + 1
  · simp only [low, if_true]
    by_cases same : t = i
    · simp [same]
    · simp [same]
  · have apart : t ≠ i := by omega
    simp [low, apart]

theorem lowbit_pos {n : Nat} (positive : 0 < n) : 0 < lowbit n := by
  obtain ⟨t, high, rfl⟩ := exists_lowest_bit positive
  rw [lowbit_split]
  exact Nat.two_pow_pos t

theorem add_lowbit_le {n node : Nat} (above : node - lowbit node < n) (below : n < node) :
    n + lowbit n ≤ node := by
  obtain ⟨t, high, rfl⟩ := exists_lowest_bit (show 0 < node by omega)
  rw [lowbit_split] at above
  obtain ⟨s, rest, rfl⟩ := exists_lowest_bit (show 0 < n by omega)
  rw [lowbit_split]
  -- The lower number has its lowest bit below the node's, and both are multiples of it.
  have lower : s < t := by
    by_contra atLeast
    obtain ⟨d, rfl⟩ := Nat.exists_eq_add_of_le (Nat.le_of_not_lt atLeast)
    have factored : 2 ^ (t + d + 1) * rest + 2 ^ (t + d) =
      2 ^ t * (2 ^ (d + 1) * rest + 2 ^ d) := by ring
    have doubled : 2 ^ (t + 1) * high = 2 ^ t * (2 * high) := by ring
    rw [factored] at above below
    rw [doubled] at above below
    have up : 2 * high < 2 ^ (d + 1) * rest + 2 ^ d :=
      Nat.lt_of_mul_lt_mul_left (a := 2 ^ t) (by omega)
    have down : 2 ^ (d + 1) * rest + 2 ^ d < 2 * high + 1 :=
      Nat.lt_of_mul_lt_mul_left (a := 2 ^ t) (by rw [Nat.mul_succ]; exact below)
    omega
  obtain ⟨d, rfl⟩ := Nat.exists_eq_add_of_lt lower
  have factored : 2 ^ (s + d + 1 + 1) * high + 2 ^ (s + d + 1) =
      2 ^ s * (2 ^ (d + 2) * high + 2 ^ (d + 1)) := by
    ring
  have doubled : 2 ^ (s + 1) * rest + 2 ^ s = 2 ^ s * (2 * rest + 1) := by ring
  rw [factored, doubled] at below
  rw [factored]
  have less : 2 * rest + 1 < 2 ^ (d + 2) * high + 2 ^ (d + 1) := Nat.lt_of_mul_lt_mul_left below
  calc 2 ^ (s + 1) * rest + 2 ^ s + 2 ^ s = 2 ^ s * (2 * rest + 1 + 1) := by ring
    _ ≤ 2 ^ s * (2 ^ (d + 2) * high + 2 ^ (d + 1)) := Nat.mul_le_mul_left _ less

/-! ## The two walks -/

/-- The nodes that an update visits: `for (; index <= size; index += index & -index)`. -/
def climb (size index : Nat) : List Nat :=
  if _inside : 0 < index ∧ index ≤ size then index :: climb size (index + lowbit index) else []
termination_by size + 1 - index
decreasing_by
  have := lowbit_pos _inside.1
  omega

/-- The nodes that a query visits: `for (; index > 0; index -= index & -index)`. -/
def descend (index : Nat) : List Nat :=
  if _positive : 0 < index then index :: descend (index - lowbit index) else []
termination_by index
decreasing_by
  have := lowbit_pos _positive
  omega

theorem range_of_mem_climb {size position node : Nat} (visited : node ∈ climb size position) :
    position ≤ node ∧ node ≤ size := by
  induction position using climb.induct size with
  | case1 position inside ih =>
    rw [climb, dif_pos inside] at visited
    rcases List.mem_cons.mp visited with rfl | later
    · omega
    · have := ih later
      omega
  | case2 position outside =>
    rw [climb, dif_neg outside] at visited
    simp at visited

theorem mem_climb {size position node : Nat} (positive : 0 < position) (inside : node ≤ size)
    (above : node - lowbit node < position) (below : position ≤ node) :
    node ∈ climb size position := by
  induction position using climb.induct size with
  | case1 position within ih =>
    rw [climb, dif_pos within]
    by_cases same : node = position
    · exact List.mem_cons.mpr (.inl same)
    · have reach := add_lowbit_le above (by omega)
      have step := lowbit_pos positive
      exact List.mem_cons.mpr (.inr (ih (by omega) (by omega) reach))
  | case2 position outside => omega

theorem le_of_mem_descend {bound node : Nat} (visited : node ∈ descend bound) : node ≤ bound := by
  induction bound using descend.induct with
  | case1 bound positive ih =>
    rw [descend, dif_pos positive] at visited
    rcases List.mem_cons.mp visited with rfl | later
    · exact le_rfl
    · have := ih later
      omega
  | case2 bound zero =>
    rw [descend, dif_neg zero] at visited
    simp at visited

theorem exists_mem_descend {bound position : Nat} (positive : 0 < position)
    (within : position ≤ bound) :
    ∃ node ∈ descend bound, node - lowbit node < position ∧ position ≤ node := by
  induction bound using descend.induct with
  | case1 bound nonzero ih =>
    rw [descend, dif_pos nonzero]
    by_cases here : bound - lowbit bound < position
    · exact ⟨bound, List.mem_cons_self, here, within⟩
    · obtain ⟨node, visited, range⟩ := ih (by omega)
      exact ⟨node, List.mem_cons_of_mem _ visited, range⟩
  | case2 bound zero => omega

/-- The walk of an update meets the walk of a query exactly when the position is within the
bound. -/
theorem walks_meet_iff {size position bound : Nat} (positive : 0 < position) (inside : bound ≤ size) :
    (∃ node ∈ descend bound, node ∈ climb size position) ↔ position ≤ bound := by
  constructor
  · rintro ⟨node, queried, updated⟩
    exact (range_of_mem_climb updated).1.trans (le_of_mem_descend queried)
  · intro within
    obtain ⟨node, queried, above, below⟩ := exists_mem_descend positive within
    exact ⟨node, queried, mem_climb positive ((le_of_mem_descend queried).trans inside) above below⟩

end Scribe.Fenwick
