import Mathlib.Data.List.Dedup
import Mathlib.Data.List.Perm.Basic
import Mathlib.Data.List.Range
import Mathlib.Data.List.Sort

/-! Lists that are sorted, cut into groups or laid out over a range. -/

set_option autoImplicit false

namespace Scribe

open List

/-! ## Sorting

Insertion sort is stable: entries that compare equal stay in the order of the input. -/

section
variable {α : Type} {r S : α → α → Prop} [DecidableRel r] [Std.Total r] [IsTrans α r]

theorem pairwise_orderedInsert_stable {a : α} {l : List α}
    (sorted : l.Pairwise fun x y => r x y ∧ (r y x → S x y)) (first : ∀ b ∈ l, S a b) :
    (l.orderedInsert r a).Pairwise fun x y => r x y ∧ (r y x → S x y) := by
  induction l with
  | nil => simp
  | cons b rest ih =>
    obtain ⟨least, sortedRest⟩ := List.pairwise_cons.mp sorted
    by_cases fits : r a b
    · rw [List.orderedInsert_cons_of_le _ _ fits, List.pairwise_cons]
      refine ⟨fun x member => ⟨?_, fun _ => first x member⟩, sorted⟩
      rcases List.mem_cons.mp member with rfl | later
      · exact fits
      · exact IsTrans.trans _ _ _ fits (least x later).1
    · rw [List.orderedInsert_of_not_le _ _ fits, List.pairwise_cons]
      refine ⟨fun x member => ?_, ih sortedRest fun x later => first x (List.mem_cons_of_mem _ later)⟩
      rcases (List.mem_orderedInsert r).mp member with rfl | later
      · exact ⟨(Std.Total.total x b).resolve_left fits, fun back => absurd back fits⟩
      · exact least x later

theorem pairwise_insertionSort_stable {l : List α} (ordered : l.Pairwise S) :
    (l.insertionSort r).Pairwise fun x y => r x y ∧ (r y x → S x y) := by
  induction l with
  | nil => simp
  | cons a rest ih =>
    obtain ⟨first, orderedRest⟩ := List.pairwise_cons.mp ordered
    exact pairwise_orderedInsert_stable (ih orderedRest) fun b member =>
      first b ((List.mem_insertionSort r).mp member)

end

theorem pairwise_idxOf {α : Type} [BEq α] [LawfulBEq α] {l : List α} (distinct : l.Nodup) :
    l.Pairwise fun x y => l.idxOf x < l.idxOf y := by
  rw [List.pairwise_iff_getElem]
  intro i j iInside jInside less
  rwa [distinct.idxOf_getElem, distinct.idxOf_getElem]

/-! ## Groups -/

/-- The groups of a list by a key, in any order of the keys, are the list again. -/
theorem flatMap_filter_perm {α κ : Type} [DecidableEq κ] (key : α → κ) (keys : List κ)
    (distinct : keys.Nodup) (values : List α) (all : ∀ value ∈ values, key value ∈ keys) :
    (keys.flatMap fun k => values.filter (key · = k)).Perm values := by
  induction keys generalizing values with
  | nil =>
    have none : values = [] := eq_nil_iff_forall_not_mem.mpr fun value member => by
      simpa using all value member
    simp [none]
  | cons first rest ih =>
    obtain ⟨absent, distinct⟩ := nodup_cons.mp distinct
    have others : (rest.flatMap fun k => values.filter (key · = k)) =
        rest.flatMap fun k => (values.filter fun value => !decide (key value = first)).filter
            (key · = k) := by
      apply flatMap_congr
      intro k member
      rw [filter_filter]
      apply filter_congr
      intro value _
      by_cases same : key value = k
      · have apart : k ≠ first := by rintro rfl; exact absent member
        simp [same, apart]
      · simp [same]
    have tail := ih distinct (values.filter fun value => !decide (key value = first)) (by
      intro value member
      simp only [mem_filter, Bool.not_eq_eq_eq_not, Bool.not_true, decide_eq_false_iff_not] at member
      exact (mem_cons.mp (all value member.1)).resolve_left member.2)
    rw [flatMap_cons, others]
    exact (tail.append_left _).trans (filter_append_perm _ values)

theorem countP_mem_eq_count {α β : Type} [BEq α] [LawfulBEq α] (group : β → List α) (value : α)
    (groups : List β) (distinct : ∀ g ∈ groups, (group g).Nodup) :
    groups.countP (value ∈ group ·) = (groups.flatMap group).count value := by
  induction groups with
  | nil => rfl
  | cons first rest ih =>
    have here : (group first).count value = if value ∈ group first then 1 else 0 :=
      (distinct first mem_cons_self).count
    rw [countP_cons, flatMap_cons, count_append, here, ih fun g later =>
      distinct g (mem_cons_of_mem _ later)]
    simp only [decide_eq_true_eq]
    omega

theorem eq_of_countP_eq_one {α : Type} {test : α → Bool} {values : List α}
    (one : values.countP test = 1) {a b : α} (first : a ∈ values) (second : b ∈ values)
    (passesA : test a = true) (passesB : test b = true) : a = b := by
  rw [countP_eq_length_filter, length_eq_one_iff] at one
  obtain ⟨only, alone⟩ := one
  have isA : a ∈ values.filter test := mem_filter.mpr ⟨first, passesA⟩
  have isB : b ∈ values.filter test := mem_filter.mpr ⟨second, passesB⟩
  rw [alone, mem_singleton] at isA isB
  rw [isA, isB]

/-! ## Tilings -/

/-- Each interval starts where the one before ends, and none is empty. -/
def Tiles : (low high : Nat) → List (Nat × Nat) → Prop
  | low, high, [] => low = high
  | low, high, (start, stop) :: rest => start = low ∧ start < stop ∧ Tiles stop high rest

instance decidableTiles : (low high : Nat) → (spans : List (Nat × Nat)) →
      Decidable (Tiles low high spans)
  | low, high, [] => inferInstanceAs (Decidable (low = high))
  | low, high, (start, stop) :: rest =>
      have := decidableTiles stop high rest
      inferInstanceAs (Decidable (start = low ∧ start < stop ∧ Tiles stop high rest))

theorem tiles_steps {f : Nat → Nat} (count : Nat) {first : Nat}
    (increasing : ∀ i < count, f (first + i) < f (first + i + 1)) :
    Tiles (f first) (f (first + count)) ((List.range' first count).map fun i => (f i, f (i + 1))) := by
  induction count generalizing first with
  | zero => rfl
  | succ count ih =>
    have later := @ih (first + 1) fun i inside => by
      have next := increasing (i + 1) (by omega)
      rwa [show first + (i + 1) = first + 1 + i by omega] at next
    rw [show first + 1 + count = first + (count + 1) by omega] at later
    exact ⟨rfl, increasing 0 (by omega), later⟩

end Scribe
