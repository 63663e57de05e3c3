import Mathlib.Data.List.Basic

/-! Growable slices over a memory of arrays.

A slice is a view of the first cells of an array. Appending to a slice with free
capacity writes the next cell in place; otherwise the contents move to a new array
and the old one stays as it is. An array is named by its position in the memory.
-/

set_option autoImplicit false

namespace Scribe.Slices

open List

variable {α : Type}

abbrev Memory (α : Type) := List (List α)

structure Slice where
  array : Nat
  len : Nat
  cap : Nat
  deriving DecidableEq

def Slice.nil : Slice := ⟨0, 0, 0⟩

def contents (memory : Memory α) (slice : Slice) : List α :=
  (memory.getD slice.array []).take slice.len

def read (memory : Memory α) (array index : Nat) : Option α := memory[array]?.bind (·[index]?)

def write (memory : Memory α) (array index : Nat) (value : α) : Memory α :=
  memory.modify array (·.set index value)

/-- A new array has room for one element more at least. -/
def append (grow : Nat → Nat) (zero : α) (memory : Memory α) (slice : Slice) (value : α) :
    Memory α × Slice :=
  if slice.len < slice.cap then (write memory slice.array slice.len value,
    { slice with len := slice.len + 1 })
  else
    let cap := max (slice.len + 1) (grow slice.cap)
    (memory ++ [contents memory slice ++ value :: List.replicate (cap - (slice.len + 1)) zero],
      ⟨memory.length, slice.len + 1, cap⟩)

/-- The slice lies within its array; one without capacity has none. -/
structure Fits (memory : Memory α) (slice : Slice) : Prop where
  within : slice.len ≤ slice.cap
  backed : slice.cap ≠ 0 → ∃ cells, memory[slice.array]? = some cells ∧ cells.length = slice.cap

theorem Fits.nil (memory : Memory α) : Fits memory Slice.nil :=
  ⟨Nat.le_refl 0, fun filled => absurd rfl filled⟩

theorem Fits.array_lt {memory : Memory α} {slice : Slice} (fits : Fits memory slice)
    (filled : slice.cap ≠ 0) : slice.array < memory.length := by
  obtain ⟨cells, found, _⟩ := fits.backed filled
  exact (List.getElem?_eq_some_iff.mp found).1

theorem Fits.congr {memory later : Memory α} {slice : Slice} (fits : Fits memory slice)
    (same : slice.cap ≠ 0 → later[slice.array]? = memory[slice.array]?) : Fits later slice :=
  ⟨fits.within, fun filled => same filled ▸ fits.backed filled⟩

theorem contents_of_getElem? {memory : Memory α} {slice : Slice} {cells : List α}
    (found : memory[slice.array]? = some cells) : contents memory slice = cells.take slice.len := by
  rw [contents, getD_eq_getElem?_getD, found, Option.getD_some]

theorem contents_empty {memory : Memory α} {slice : Slice} (empty : slice.len = 0) :
    contents memory slice = [] := by
  rw [contents, empty, take_zero]

theorem contents_congr {memory later : Memory α} {slice : Slice}
    (same : slice.len ≠ 0 → later[slice.array]? = memory[slice.array]?) :
    contents later slice = contents memory slice := by
  by_cases empty : slice.len = 0
  · rw [contents_empty empty, contents_empty empty]
  · rw [contents, contents, getD_eq_getElem?_getD, getD_eq_getElem?_getD, same empty]

theorem Fits.length_contents {memory : Memory α} {slice : Slice} (fits : Fits memory slice) :
    (contents memory slice).length = slice.len := by
  by_cases empty : slice.len = 0
  · rw [contents_empty empty, empty, length_nil]
  · have filled : slice.cap ≠ 0 := fun none => empty (by have := fits.within; omega)
    obtain ⟨cells, found, size⟩ := fits.backed filled
    rw [contents_of_getElem? found, length_take, size]
    exact Nat.min_eq_left fits.within

/-! ### Writing a cell -/

theorem write_other {memory : Memory α} {array index other : Nat} {value : α} (apart : other ≠ array) :
    (write memory array index value)[other]? = memory[other]? := by
  rw [write, getElem?_modify]
  simp [Ne.symm apart]

theorem write_self {memory : Memory α} {array index : Nat} {value : α} {cells : List α}
    (found : memory[array]? = some cells) :
    (write memory array index value)[array]? = some (cells.set index value) := by
  rw [write, getElem?_modify, found]
  simp

@[simp] theorem length_write (memory : Memory α) (array index : Nat) (value : α) :
    (write memory array index value).length = memory.length := by
  simp [write]

section
variable {memory : Memory α} {slice : Slice} (fits : Fits memory slice)
include fits

theorem Fits.write (array index : Nat) (value : α) :
    Fits (Slices.write memory array index value) slice := by
  refine ⟨fits.within, fun filled => ?_⟩
  obtain ⟨cells, found, size⟩ := fits.backed filled
  by_cases same : slice.array = array
  · subst same
    exact ⟨_, write_self found, by rw [length_set, size]⟩
  · exact ⟨cells, by rw [write_other same, found], size⟩

theorem take_contents_write {count index : Nat} (below : count ≤ index) (array : Nat) (value : α) :
    (contents (write memory array index value) slice).take count =
      (contents memory slice).take count := by
  by_cases same : slice.array = array
  · by_cases filled : slice.cap = 0
    · have empty : slice.len = 0 := by have := fits.within; omega
      rw [contents_empty empty, contents_empty empty]
    · obtain ⟨cells, found, _⟩ := fits.backed filled
      subst same
      rw [contents_of_getElem? found, contents_of_getElem? (write_self found), take_take, take_take]
      exact take_set_of_le (Nat.le_trans (Nat.min_le_left _ _) below)
  · rw [contents_congr fun _ => write_other same]

theorem read_last {count : Nat} (size : slice.len = count + 1) :
    ∃ value, read memory slice.array count = some value ∧
      contents memory slice = (contents memory slice).take count ++ [value] := by
  have filled : slice.cap ≠ 0 := by have := fits.within; omega
  obtain ⟨cells, found, length⟩ := fits.backed filled
  have within : count < cells.length := by have := fits.within; omega
  refine ⟨cells[count], ?_, ?_⟩
  · rw [read, found, Option.bind_some, getElem?_eq_getElem within]
  · rw [contents_of_getElem? found, size, take_take, Nat.min_eq_left (Nat.le_succ count)]
    exact (take_append_getElem within).symm

end

theorem read_congr {memory later : Memory α} {array : Nat} (same : later[array]? = memory[array]?)
    (index : Nat) : read later array index = read memory array index := by
  rw [read, read, same]

theorem read_write_self {memory : Memory α} {array index : Nat} {old value : α}
    (found : read memory array index = some old) :
    read (write memory array index value) array index = some value := by
  obtain ⟨cells, here, cell⟩ := Option.bind_eq_some_iff.mp found
  rw [read, write_self here, Option.bind_some, getElem?_set_self (List.getElem?_eq_some_iff.mp cell).1]

theorem write_read {memory : Memory α} {array index : Nat} {value : α}
    (found : read memory array index = some value) : write memory array index value = memory := by
  obtain ⟨cells, here, cell⟩ := Option.bind_eq_some_iff.mp found
  obtain ⟨within, isCell⟩ := List.getElem?_eq_some_iff.mp cell
  refine ext_getElem? fun other => ?_
  by_cases same : other = array
  · subst same
    rw [write_self here, here, ← isCell, set_getElem_self]
  · exact write_other same

/-! ### Appending -/

/-- What an append does, whether or not the slice moves. -/
structure Appended (memory : Memory α) (slice : Slice) (value : α) (later : Memory α)
    (moved : Slice) : Prop where
  fits : Fits later moved
  contents : contents later moved = Slices.contents memory slice ++ [value]
  last : read later moved.array slice.len = some value
  len : moved.len = slice.len + 1
  cap : moved.cap ≠ 0
  array : (moved.array = slice.array ∧ slice.cap ≠ 0) ∨ moved.array = memory.length
  others : ∀ other, other < memory.length → (slice.cap ≠ 0 → other ≠ slice.array) →
    later[other]? = memory[other]?
  length : memory.length ≤ later.length

theorem appended {memory later : Memory α} {slice moved : Slice} (fits : Fits memory slice)
    {grow : Nat → Nat} {zero value : α} (made : append grow zero memory slice value = (later, moved)) :
    Appended memory slice value later moved := by
  rw [append] at made
  split at made
  case isTrue room =>
    obtain ⟨rfl, rfl⟩ := Prod.mk.inj made
    obtain ⟨cells, found, size⟩ := fits.backed (by omega)
    have within : slice.len < cells.length := by omega
    have here :
        (write memory slice.array slice.len
          value)[({ slice with len := slice.len + 1 } : Slice).array]? =
        some (cells.set slice.len value) := write_self found
    exact {
      fits := ⟨room, (fits.write _ _ _).backed⟩
      contents := by
        rw [contents_of_getElem? here, contents_of_getElem? found]
        rw [take_add_one, take_set_of_le (Nat.le_refl _), getElem?_set_self within]
        rfl
      last := by rw [read, here, Option.bind_some, getElem?_set_self within]
      len := rfl
      cap := Nat.ne_of_gt (Nat.lt_of_le_of_lt (Nat.zero_le _) room)
      array := .inl ⟨rfl, by omega⟩
      others := fun _ _ apart => write_other (apart (by omega))
      length := Nat.le_of_eq (length_write ..).symm }
  -- A full slice is copied to a new array, so every old array stays as it is.
  case isFalse full =>
    obtain ⟨rfl, rfl⟩ := Prod.mk.inj made
    have large : slice.len + 1 ≤ max (slice.len + 1) (grow slice.cap) := Nat.le_max_left _ _
    have size := fits.length_contents
    let moved : Slice := ⟨memory.length, slice.len + 1, max (slice.len + 1) (grow slice.cap)⟩
    have here :
        (memory ++ [contents memory slice ++
          value :: List.replicate (moved.cap - (slice.len + 1)) zero])[moved.array]? =
        some (contents memory slice ++
          value :: List.replicate (moved.cap - (slice.len + 1)) zero) := by
      simp [moved]
    refine {
      fits := ⟨large, fun _ => ⟨_, here, ?_⟩⟩
      contents := (contents_of_getElem? here).trans ?_
      last := ?_
      len := rfl
      cap := Nat.ne_of_gt (Nat.lt_of_lt_of_le (Nat.succ_pos _) large)
      array := .inr rfl
      others := fun _ old _ => getElem?_append_left old
      length := by simp }
    · simp only [length_append, size, length_cons, length_replicate, moved]
      omega
    · rw [take_append, size]
      simp [take_of_length_le, size, moved]
    · rw [read, here, Option.bind_some, getElem?_append_right (by omega), size]
      simp

end Scribe.Slices
