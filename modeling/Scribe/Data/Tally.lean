import Mathlib.Algebra.BigOperators.Group.List.Basic
import Mathlib.Algebra.Order.Ring.Int
import Scribe.Data.Assoc

/-! Counts by key.

A tally is a finite map to integers that reads an absent key as zero. Raising a key
adds one; lowering it takes one away and removes the entry that reaches zero. A tally
that starts empty and is lowered only where it counts something has positive entries
alone.
-/

set_option autoImplicit false

namespace Scribe.Tally

open List

section Entries

variable {κ : Type}

def total (tally : List (κ × Int)) : Int := (Assoc.values tally).sum

/-- One entry for each key, and every entry counts something. -/
structure Positive (tally : List (κ × Int)) : Prop where
  keyed : (Assoc.keys tally).Nodup
  entries : ∀ entry ∈ tally, 0 < entry.2

theorem Positive.empty : Positive ([] : List (κ × Int)) :=
  ⟨nodup_nil, fun _ member => absurd member not_mem_nil⟩

theorem apart_of_nodup {key : κ} {value : Int} {rest : List (κ × Int)}
    (keyed : (Assoc.keys ((key, value) :: rest)).Nodup) {entry : κ × Int} (member : entry ∈ rest) :
    entry.1 ≠ key := by
  intro same
  exact (nodup_cons.mp keyed).1 (mem_map.mpr ⟨entry, member, same⟩)

end Entries

variable {κ : Type} [DecidableEq κ]

def count (tally : List (κ × Int)) (key : κ) : Int := (Assoc.get tally key).getD 0

def raise (tally : List (κ × Int)) (key : κ) : List (κ × Int) :=
  Assoc.set tally key (count tally key + 1)

def lower (tally : List (κ × Int)) (key : κ) : List (κ × Int) :=
  let lowered := Assoc.set tally key (count tally key - 1)
  if count lowered key = 0 then Assoc.erase lowered key else lowered

theorem count_set (tally : List (κ × Int)) (key other : κ) (value : Int) :
    count (Assoc.set tally key value) other = if key = other then value else count tally other := by
  rw [count, Assoc.get_set]
  split
  · rfl
  · rfl

theorem count_raise (tally : List (κ × Int)) (key other : κ) :
    count (raise tally key) other = count tally other + if key = other then 1 else 0 := by
  rw [raise, count_set]
  by_cases same : key = other
  · simp [same]
  · simp [same]

theorem count_lower (tally : List (κ × Int)) (key other : κ) :
    count (lower tally key) other = count tally other - if key = other then 1 else 0 := by
  simp only [lower, count_set, if_true]
  by_cases last : count tally key - 1 = 0
  · rw [if_pos last, count, Assoc.get_erase]
    by_cases same : key = other
    · subst same
      simp [last]
    · rw [if_neg same, if_neg same, Assoc.get_set_of_ne _ _ same, sub_zero, count]
  · rw [if_neg last, count_set]
    by_cases same : key = other
    · simp [same]
    · simp [same]

theorem total_set (tally : List (κ × Int)) (key : κ) (value : Int) :
    total (Assoc.set tally key value) = total tally + (value - count tally key) := by
  induction tally with
  | nil => simp [Assoc.set, total, Assoc.values, count]
  | cons entry rest ih =>
    obtain ⟨k, v⟩ := entry
    by_cases same : k = key
    · simp [Assoc.set, same, total, Assoc.values, count, Assoc.get]
      omega
    · simp only [Assoc.set, same, if_false, total, Assoc.values, map_cons, sum_cons, count,
        Assoc.get] at ih ⊢
      omega

theorem total_erase_of_zero {tally : List (κ × Int)} (keyed : (Assoc.keys tally).Nodup) {key : κ}
    (zero : count tally key = 0) : total (Assoc.erase tally key) = total tally := by
  induction tally with
  | nil => rfl
  | cons entry rest ih =>
    obtain ⟨k, v⟩ := entry
    by_cases same : k = key
    · subst same
      have value : v = 0 := by simpa [count, Assoc.get] using zero
      have others : Assoc.erase ((k, v) :: rest) k = rest := by
        simp only [Assoc.erase, filter_cons, ne_eq, not_true_eq_false, decide_false,
          Bool.false_eq_true, if_false]
        exact filter_eq_self.mpr fun other member => by simpa using apart_of_nodup keyed member
      rw [others]
      simp [total, Assoc.values, value]
    · have below : count rest key = 0 := by simpa [count, Assoc.get, same] using zero
      have kept : Assoc.erase ((k, v) :: rest) key = (k, v) :: Assoc.erase rest key := by
        simp [Assoc.erase, same]
      have same := ih (nodup_cons.mp keyed).2 below
      simp only [total, Assoc.values] at same
      simp [kept, total, Assoc.values, same]

theorem total_raise (tally : List (κ × Int)) (key : κ) :
    total (raise tally key) = total tally + 1 := by
  rw [raise, total_set]
  omega

theorem total_lower {tally : List (κ × Int)} (positive : Positive tally) (key : κ) :
    total (lower tally key) = total tally - 1 := by
  simp only [lower]
  split
  case isTrue zero =>
    rw [total_erase_of_zero (Assoc.nodup_keys_set positive.keyed _ _) zero, total_set]
    omega
  case isFalse =>
    rw [total_set]
    omega

section
variable {tally : List (κ × Int)} (positive : Positive tally)
include positive

theorem count_nonneg (key : κ) : 0 ≤ count tally key := by
  rw [count]
  cases found : Assoc.get tally key with
  | none => exact Int.le_refl 0
  | some value => exact Int.le_of_lt (positive.entries _ (Assoc.mem_of_get found))

theorem count_of_mem {entry : κ × Int} (member : entry ∈ tally) : count tally entry.1 = entry.2 := by
  rw [count, Assoc.get_of_mem positive.keyed member, Option.getD_some]

theorem Positive.raise (key : κ) : Positive (Tally.raise tally key) := by
  refine ⟨Assoc.nodup_keys_set positive.keyed _ _, fun entry member => ?_⟩
  rcases Assoc.mem_set member with rfl | old
  · exact Int.lt_add_one_of_le (count_nonneg positive key)
  · exact positive.entries entry old

theorem Positive.lower {key : κ} (counted : 0 < count tally key) :
    Positive (Tally.lower tally key) := by
  have keyed := Assoc.nodup_keys_set positive.keyed key (count tally key - 1)
  simp only [Tally.lower]
  split
  case isTrue zero =>
    refine ⟨keyed.sublist (filter_sublist.map _), fun entry member => ?_⟩
    obtain ⟨present, other⟩ := mem_filter.mp member
    rcases Assoc.mem_set present with rfl | old
    · simp at other
    · exact positive.entries entry old
  case isFalse rest =>
    rw [count_set, if_pos rfl] at rest
    refine ⟨keyed, fun entry member => ?_⟩
    rcases Assoc.mem_set member with rfl | old
    · change 0 < count tally key - 1
      omega
    · exact positive.entries entry old

end

end Scribe.Tally
