import Mathlib.Data.List.Nodup
import Mathlib.Data.List.Basic
import Mathlib.Data.List.Sort

/-! Tables of rows and the statements that change them.

A table is a list of rows. An `UPDATE` rewrites the rows its condition selects
and reports how many of them really changed: a row that is assigned the values
it already has is selected but not counted. A statement that selects by a unique
key writes at most one row, and `put` is its effect. An ordered query with a limit
answers the `first` rows.
-/

set_option autoImplicit false

namespace Scribe.Table

open List

variable {α κ : Type}

def update (selected : α → Bool) (assign : α → α) (rows : List α) : List α :=
  rows.map fun row => if selected row then assign row else row

def affected [DecidableEq α] (selected : α → Bool) (assign : α → α) (rows : List α) : Nat :=
  rows.countP fun row => selected row && assign row != row

def delete (selected : α → Bool) (rows : List α) : List α := rows.filter fun row => !selected row

def first (before : α → α → Prop) [DecidableRel before] (limit : Nat) (rows : List α) : List α :=
  (rows.insertionSort before).take limit

section Update

variable {selected : α → Bool} {assign : α → α} {rows : List α}

theorem mem_update {row : α} :
    row ∈ update selected assign rows ↔
      (row ∈ rows ∧ selected row = false) ∨ ∃ old ∈ rows, selected old = true ∧ row = assign old := by
  simp only [update, mem_map]
  constructor
  · rintro ⟨old, member, rfl⟩
    cases here : selected old with
    | true => exact .inr ⟨old, member, here, by simp⟩
    | false => exact .inl ⟨by simpa using member, by simpa using here⟩
  · rintro (⟨member, here⟩ | ⟨old, member, here, rfl⟩)
    · exact ⟨row, member, by simp [here]⟩
    · exact ⟨old, member, by simp [here]⟩

/-- The rule for updates: what holds of every row and of every row the update writes. -/
theorem forall_update {holds : α → Prop} (all : ∀ row ∈ rows, holds row)
    (writes : ∀ row ∈ rows, selected row = true → holds (assign row)) :
    ∀ row ∈ update selected assign rows, holds row := by
  intro row present
  rcases mem_update.mp present with ⟨member, _⟩ | ⟨old, member, here, rfl⟩
  · exact all row member
  · exact writes old member here

@[simp] theorem mem_delete {row : α} : row ∈ delete selected rows ↔
      row ∈ rows ∧ selected row = false := by
  simp [delete]

theorem update_eq_self (same : ∀ row ∈ rows, selected row = true → assign row = row) :
    update selected assign rows = rows := by
  have pointwise : ∀ row ∈ rows, (if selected row then assign row else row) = id row := by
    intro row member
    cases here : selected row with
    | true => simpa using same row member here
    | false => rfl
  rw [update, map_congr_left pointwise, map_id]

theorem map_key_update (key : α → κ)
    (keeps : ∀ row, selected row = true → key (assign row) = key row) :
    (update selected assign rows).map key = rows.map key := by
  rw [update, map_map]
  apply map_congr_left
  intro row _
  cases here : selected row with
  | true => simpa [here] using keeps row here
  | false => simp [here]

variable [DecidableEq α]

theorem update_of_affected_zero (none : affected selected assign rows = 0) :
    update selected assign rows = rows := by
  apply update_eq_self
  intro row member here
  by_contra changes
  have := countP_eq_zero.mp none row member
  simp [here, changes] at this

theorem affected_pos_iff :
    0 < affected selected assign rows ↔ ∃ row ∈ rows, selected row = true ∧ assign row ≠ row := by
  simp [affected, countP_pos_iff]

end Update

section Keyed

variable [DecidableEq κ] {key : α → κ} {rows : List α}

theorem find?_update {selected : α → Bool} {assign : α → α}
    (keeps : ∀ row, key (assign row) = key row) {k : κ} :
    (update selected assign rows).find? (fun row => key row = k) =
      (rows.find? fun row => key row = k).map fun row => if selected row then assign row else row := by
  rw [update, find?_map]
  congr 2
  funext row
  by_cases chosen : selected row = true <;> simp [chosen, keeps]

theorem find?_concat {new : α} {k : κ} :
    (rows ++ [new]).find? (fun row => key row = k) =
      (rows.find? fun row => key row = k).or (if key new = k then some new else none) := by
  rw [find?_append]
  by_cases here : key new = k <;> simp [here]

theorem find?_key (distinct : (rows.map key).Nodup) {row : α} {k : κ} :
    rows.find? (fun candidate => key candidate = k) = some row ↔ row ∈ rows ∧ key row = k := by
  constructor
  · intro found
    exact ⟨mem_of_find?_eq_some found, by simpa using find?_some found⟩
  · intro ⟨member, isKey⟩
    cases found : rows.find? (fun candidate => key candidate = k) with
    | none => simpa [isKey] using find?_eq_none.mp found row member
    | some other =>
      have here : key other = k := by simpa using find?_some found
      rw [inj_on_of_nodup_map distinct (mem_of_find?_eq_some found) member (here.trans isKey.symm)]

omit [DecidableEq κ] in
theorem countP_le_one (distinct : (rows.map key).Nodup) {selected : α → Bool}
    (only : ∀ left ∈ rows, ∀ right ∈ rows, selected left = true → selected right = true →
      key left = key right) :
    rows.countP selected ≤ 1 := by
  induction rows with
  | nil => simp
  | cons first rest ih =>
    have tail := ih (nodup_cons.mp distinct).2 fun left l right r =>
      only left (mem_cons_of_mem _ l) right (mem_cons_of_mem _ r)
    cases here : selected first with
    | false => simpa [here] using tail
    | true =>
      -- the first row is the selected one, so the rest has none
      have none : rest.countP selected = 0 := by
        refine countP_eq_zero.mpr fun row member chosen => ?_
        have same := only first mem_cons_self row (mem_cons_of_mem _ member) here chosen
        exact (nodup_cons.mp distinct).1 (mem_map.mpr ⟨row, member, same.symm⟩)
      simp [here, none]

omit [DecidableEq κ] in
theorem countP_eq_one_iff (distinct : (rows.map key).Nodup) {selected : α → Bool}
    (only : ∀ left ∈ rows, ∀ right ∈ rows, selected left = true → selected right = true →
      key left = key right) :
    rows.countP selected = 1 ↔ ∃ row ∈ rows, selected row = true := by
  rw [← countP_pos_iff]
  have bound : rows.countP selected ≤ 1 := countP_le_one distinct only
  omega

variable [DecidableEq α]

omit [DecidableEq κ] in
theorem affected_eq_one_iff (distinct : (rows.map key).Nodup) {selected : α → Bool} {assign : α → α}
    (only : ∀ left ∈ rows, ∀ right ∈ rows, selected left = true → selected right = true →
      key left = key right) :
    affected selected assign rows = 1 ↔ ∃ row ∈ rows, selected row = true ∧ assign row ≠ row := by
  rw [affected, countP_eq_one_iff distinct]
  · simp
  · intro left isLeft right isRight chosen chosen'
    simp only [Bool.and_eq_true] at chosen chosen'
    exact only left isLeft right isRight chosen.1 chosen'.1

end Keyed

end Scribe.Table
