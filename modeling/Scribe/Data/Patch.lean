import Scribe.Data.Assoc
import Scribe.Data.Attempt
import Mathlib.Data.List.Perm.Basic

/-! Lists rewritten at some positions.

Writes at distinct positions commute, so a loop whose iterations write disjoint
positions ends in one list whatever the order of the iterations.
-/

set_option autoImplicit false

namespace Scribe.Patch

open List

variable {α : Type}

/-- Write values at positions, from left to right. -/
def apply (items : List α) (writes : List (Nat × α)) : List α :=
  writes.foldl (fun items write => items.set write.1 write.2) items

@[simp] theorem apply_nil (items : List α) : apply items [] = items := rfl

@[simp] theorem apply_cons (items : List α) (write : Nat × α) (writes : List (Nat × α)) :
    apply items (write :: writes) = apply (items.set write.1 write.2) writes := rfl

theorem apply_append (items : List α) (first second : List (Nat × α)) :
    apply items (first ++ second) = apply (apply items first) second :=
  foldl_append

@[simp] theorem length_apply (items : List α) (writes : List (Nat × α)) :
    (apply items writes).length = items.length := by
  induction writes generalizing items with
  | nil => rfl
  | cons write rest ih => rw [apply_cons, ih, length_set]

theorem getElem?_apply_of_not_mem (items : List α) {writes : List (Nat × α)} {i : Nat}
    (untouched : i ∉ Assoc.keys writes) : (apply items writes)[i]? = items[i]? := by
  induction writes generalizing items with
  | nil => rfl
  | cons write rest ih =>
    simp only [Assoc.keys, map_cons, mem_cons, not_or] at untouched
    rw [apply_cons, ih _ untouched.2, getElem?_set_ne (Ne.symm untouched.1)]

theorem getElem?_apply_of_mem {items : List α} {writes : List (Nat × α)}
    (distinct : (Assoc.keys writes).Nodup) {i : Nat} {value : α} (written : (i, value) ∈ writes)
    (inside : i < items.length) : (apply items writes)[i]? = some value := by
  induction writes generalizing items with
  | nil => simp at written
  | cons write rest ih =>
    simp only [Assoc.keys, map_cons, nodup_cons] at distinct
    rw [apply_cons]
    rcases mem_cons.mp written with rfl | later
    · rw [getElem?_apply_of_not_mem _ distinct.1, getElem?_set_self inside]
    · exact ih distinct.2 later (by simpa using inside)

theorem apply_perm (items : List α) {writes others : List (Nat × α)}
    (distinct : (Assoc.keys writes).Nodup) (perm : writes.Perm others) :
    apply items writes = apply items others := by
  have sameKeys : (Assoc.keys writes).Perm (Assoc.keys others) := perm.map Prod.fst
  apply ext_getElem?
  intro i
  by_cases inside : i < items.length
  · by_cases touched : i ∈ Assoc.keys writes
    · obtain ⟨⟨_, value⟩, written, rfl⟩ := mem_map.mp touched
      rw [getElem?_apply_of_mem distinct written inside,
        getElem?_apply_of_mem (sameKeys.nodup_iff.mp distinct) (perm.mem_iff.mp written) inside]
    · rw [getElem?_apply_of_not_mem items touched,
        getElem?_apply_of_not_mem items (fun member => touched (sameKeys.mem_iff.mpr member))]
  · rw [getElem?_eq_none (by simpa using inside), getElem?_eq_none (by simpa using inside)]

theorem keys_zip_sublist (places : List Nat) (values : List α) :
    (Assoc.keys (places.zip values)).Sublist places := by
  induction places generalizing values with
  | nil => exact .slnil
  | cons place rest ih =>
    cases values with
    | nil => exact nil_sublist _
    | cons value values => exact (ih values).cons_cons place

theorem apply_of_current {items : List α} {writes : List (Nat × α)}
    (current : ∀ write ∈ writes, items[write.1]? = some write.2) : apply items writes = items := by
  induction writes with
  | nil => rfl
  | cons write rest ih =>
    obtain ⟨inside, here⟩ := List.getElem?_eq_some_iff.mp (current write mem_cons_self)
    have same : items.set write.1 write.2 = items := by rw [← here, set_getElem_self]
    rw [apply_cons, same]
    exact ih fun other member => current other (mem_cons_of_mem _ member)

/-- A loop whose steps each read and write one position of their own makes its values first. -/
theorem foldlM_ok_iff {β ε : Type} {step : List α → β → Except ε (List α)} {place : β → Nat}
    {made : β → Except ε α} {values : List β} {items result : List α}
    (distinct : (values.map place).Nodup)
    (each : ∀ value ∈ values, ∀ current next, current[place value]? = items[place value]? →
      (step current value = .ok next ↔ ∃ new, made value = .ok new ∧
        next = current.set (place value) new)) :
    values.foldlM step items = .ok result ↔
      ∃ news, values.mapM made = .ok news ∧ result = apply items ((values.map place).zip news) := by
  suffices general : ∀ current, (∀ value ∈ values, current[place value]? = items[place value]?) →
      (values.foldlM step current = .ok result ↔
        ∃ news, values.mapM made = .ok news ∧
          result = apply current ((values.map place).zip news)) from
    general items fun _ _ => rfl
  induction values with
  | nil =>
    intro current _
    simp only [foldlM_nil, mapM_nil, Attempt.pure_ok_iff, exists_eq_left', map_nil, zip_nil_left,
      apply_nil]
    exact eq_comm
  | cons value rest ih =>
    intro current agree
    obtain ⟨apart, distinct⟩ := nodup_cons.mp distinct
    have later : ∀ new, ∀ other ∈ rest,
        (current.set (place value) new)[place other]? = items[place other]? := by
      intro new other member
      have differs : place value ≠ place other := fun same => apart (same ▸ mem_map_of_mem member)
      rw [getElem?_set_ne differs, agree other (mem_cons_of_mem _ member)]
    have tail := ih distinct fun other member => each other (mem_cons_of_mem _ member)
    have first := fun next => each value mem_cons_self current next (agree value mem_cons_self)
    rw [foldlM_cons, mapM_cons]
    simp only [Attempt.bind_ok_iff, Attempt.pure_ok_iff, first]
    constructor
    · rintro ⟨_, ⟨new, isNew, rfl⟩, ended⟩
      obtain ⟨news, areNew, rfl⟩ := (tail _ (later new)).mp ended
      exact ⟨new :: news, ⟨new, isNew, news, areNew, rfl⟩, rfl⟩
    · rintro ⟨_, ⟨new, isNew, news, areNew, rfl⟩, rfl⟩
      exact ⟨_, ⟨new, isNew, rfl⟩, (tail _ (later new)).mpr ⟨news, areNew, rfl⟩⟩

end Scribe.Patch
