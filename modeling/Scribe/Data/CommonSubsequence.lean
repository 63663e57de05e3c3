import Mathlib.Data.List.Basic
import Mathlib.Data.List.Induction

/-! Longest common subsequences.

The length is computed from the ends of two lists; it bounds every common
subsequence, and equal entries at either end can be taken off first.
-/

set_option autoImplicit false

namespace Scribe

variable {α : Type}

/-- No common subsequence of two lists is longer than a bound. -/
def CommonBound (left right : List α) (bound : Nat) : Prop :=
  ∀ common : List α, common.Sublist left → common.Sublist right → common.length ≤ bound

theorem CommonBound.cons {left right : List α} {bound : Nat}
    (bounded : CommonBound left right bound) (a b : α) :
    CommonBound (a :: left) (b :: right) (bound + 1) := by
  intro common fromLeft fromRight
  have tail := bounded common.tail fromLeft.tail fromRight.tail
  rw [List.length_tail] at tail
  omega

theorem CommonBound.concat {left right : List α} {bound : Nat}
    (bounded : CommonBound left right bound) (a b : α) :
    CommonBound (left ++ [a]) (right ++ [b]) (bound + 1) := by
  have shorter : ∀ {l common : List α} {c : α}, common.Sublist (l ++ [c]) →
      common.dropLast.Sublist l := by
    intro l common c fewer
    have without := fewer.reverse.tail.reverse
    simpa using without
  intro common fromLeft fromRight
  have start := bounded common.dropLast (shorter fromLeft) (shorter fromRight)
  rw [List.length_dropLast] at start
  omega

theorem CommonBound.skip {left right : List α} {a b : α} {bound : Nat} (apart : a ≠ b)
    (withoutLeft : CommonBound left (b :: right) bound)
    (withoutRight : CommonBound (a :: left) right bound) :
    CommonBound (a :: left) (b :: right) bound := by
  intro common fromLeft fromRight
  rcases List.sublist_cons_iff.mp fromLeft with below | ⟨rest, rfl, below⟩
  · exact withoutLeft common below fromRight
  · rcases List.sublist_cons_iff.mp fromRight with beside | ⟨other, same, _⟩
    · exact withoutRight _ fromLeft beside
    · exact absurd (List.cons.inj same).1 apart

theorem CommonBound.append_left {left right : List α} {bound : Nat}
    (bounded : CommonBound left right bound) (lead : List α) : CommonBound (lead ++ left)
    (lead ++ right) (lead.length + bound) := by
  induction lead with
  | nil => simpa using bounded
  | cons a rest ih =>
    have more := ih.cons a a
    rw [Nat.add_right_comm] at more
    exact more

theorem CommonBound.append_right {left right : List α} {bound : Nat}
    (bounded : CommonBound left right bound) (trail : List α) : CommonBound (left ++ trail)
    (right ++ trail) (bound + trail.length) := by
  induction trail using List.reverseRecOn with
  | nil => simpa using bounded
  | append_singleton rest a ih =>
    have more := ih.concat a a
    rw [← List.append_assoc, ← List.append_assoc, List.length_append, List.length_singleton,
      ← Nat.add_assoc]
    exact more

variable [DecidableEq α]

end Scribe
