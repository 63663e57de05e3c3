import Mathlib.Data.List.Basic
import Mathlib.Data.List.Perm.Basic
import Mathlib.Data.List.Nodup

/-! Lists edited in place.

An edit drops the entries at some positions, rewrites every other one and adds new
entries behind it. The entries of the result are known by where they come from, a
reading that skips what is dropped and added does not see the edit, and an edit of
the result that finds the added entries and makes them again changes nothing.
-/

set_option autoImplicit false

namespace Scribe

open List

structure Splice (α : Type) where
  dropped : List Nat
  rewrite : α × Nat → α
  added : Nat → List α

namespace Splice

variable {α β : Type} (edit : Splice α)

/-- What an entry becomes. -/
def block (entry : α × Nat) : List α := edit.rewrite entry :: edit.added entry.2

def apply (entries : List α) : List α :=
  (entries.zipIdx.filter (·.2 ∉ edit.dropped)).flatMap edit.block

theorem apply_eq (entries : List α) :
    edit.apply entries = entries.zipIdx.flatMap fun entry => if entry.2 ∈ edit.dropped then []
      else edit.block entry := by
  rw [apply]
  induction entries.zipIdx with
  | nil => rfl
  | cons entry rest ih =>
    by_cases isDropped : entry.2 ∈ edit.dropped
    · simpa [isDropped] using ih
    · simpa [isDropped] using ih

theorem apply_of_rewritten {entries rewritten : List α}
    (same : ∀ index, rewritten[index]? = entries[index]?.map fun entry =>
      edit.rewrite (entry, index)) :
    edit.apply entries =
      rewritten.zipIdx.flatMap fun entry => if entry.2 ∈ edit.dropped then []
        else entry.1 :: edit.added entry.2 := by
  have pairs : rewritten.zipIdx = entries.zipIdx.map fun entry => (edit.rewrite entry, entry.2) := by
    apply ext_getElem?
    intro index
    rw [getElem?_zipIdx, same, getElem?_map, getElem?_zipIdx]
    cases entries[index]? with
    | none => rfl
    | some entry => simp
  rw [edit.apply_eq, pairs, flatMap_map]
  rfl

theorem mem_apply {entries : List α} {result : α} :
    result ∈ edit.apply entries ↔ ∃ index entry, entries[index]? = some entry ∧ index ∉ edit.dropped ∧
      (result = edit.rewrite (entry, index) ∨ result ∈ edit.added index) := by
  simp only [apply, mem_flatMap, mem_filter, decide_eq_true_eq, block, mem_cons, Prod.exists,
    mem_zipIdx_iff_getElem?]
  constructor
  · rintro ⟨entry, index, ⟨listed, isKept⟩, isResult⟩
    exact ⟨index, entry, listed, isKept, isResult⟩
  · rintro ⟨index, entry, listed, isKept, isResult⟩
    exact ⟨entry, index, ⟨listed, isKept⟩, isResult⟩

theorem apply_around {entries : List α} {index : Nat} {entry : α}
    (listed : entries[index]? = some entry) (isKept : index ∉ edit.dropped) :
    ∃ before after, edit.apply entries = before ++ edit.block (entry, index) ++ after ∧
      ∀ result ∈ before ++ after, ∃ other old, other ≠ index ∧ entries[other]? = some old ∧
        other ∉ edit.dropped ∧
        (result = edit.rewrite (old, other) ∨ result ∈ edit.added other) := by
  have inside : (entry, index) ∈ entries.zipIdx := mem_zipIdx_iff_getElem?.mpr listed
  obtain ⟨front, back, split⟩ := append_of_mem inside
  have distinct : (entries.zipIdx.map Prod.snd).Nodup := by
    rw [zipIdx_map_snd]
    exact nodup_range'
  rw [split, map_append, map_cons, nodup_append, nodup_cons] at distinct
  refine ⟨(front.filter (·.2 ∉ edit.dropped)).flatMap edit.block,
    (back.filter (·.2 ∉ edit.dropped)).flatMap edit.block, ?_, ?_⟩
  · rw [apply, split, filter_append, filter_cons_of_pos (by simpa using isKept), flatMap_append,
      flatMap_cons, append_assoc]
  · have elsewhere : ∀ other ∈ front ++ back, other.2 ≠ index ∧ entries[other.2]? = some other.1 := by
      intro other member
      have listedThere : other ∈ entries.zipIdx := by
        rw [split]
        rcases mem_append.mp member with isFront | isBack
        · exact mem_append_left _ isFront
        · exact mem_append_right _ (mem_cons_of_mem _ isBack)
      refine ⟨?_, mem_zipIdx_iff_getElem?.mp listedThere⟩
      rcases mem_append.mp member with isFront | isBack
      · exact distinct.2.2 _ (mem_map_of_mem isFront) _ mem_cons_self
      · rintro rfl
        exact distinct.2.1.1 (mem_map.mpr ⟨other, isBack, rfl⟩)
    intro result member
    rw [← flatMap_append, ← filter_append] at member
    obtain ⟨⟨old, other⟩, listedOther, isResult⟩ := mem_flatMap.mp member
    obtain ⟨isThere, otherKept⟩ := mem_filter.mp listedOther
    obtain ⟨apart, place⟩ := elsewhere (old, other) isThere
    exact ⟨other, old, apart, place, by simpa using otherKept, by simpa [block] using isResult⟩

theorem getElem?_block {head item : α} {tail before after : List α} {i : Nat}
    (listed : tail[i]? = some item) :
    (before ++ head :: tail ++ after)[before.length + 1 + i]? = some item := by
  have inside := (List.getElem?_eq_some_iff.mp listed).1
  rw [append_assoc, getElem?_append_right (by omega), cons_append,
    show before.length + 1 + i - before.length = i + 1 by omega, getElem?_cons_succ,
    getElem?_append_left inside, listed]

/-- A reading that skips what is dropped and added, and does not see the rewriting, reads the
same. -/
theorem filterMap_apply {entries : List α} (read : α → Option β)
    (unread : ∀ index entry, entries[index]? = some entry → index ∈ edit.dropped → read entry = none)
    (same : ∀ index entry, entries[index]? = some entry →
      read (edit.rewrite (entry, index)) = read entry)
    (skips : ∀ index, ∀ result ∈ edit.added index, read result = none) :
    (edit.apply entries).filterMap read = entries.filterMap read := by
  have fromPairs : entries.filterMap read = entries.zipIdx.filterMap fun entry => read entry.1 := by
    rw [← zipIdx_map_fst 0 entries, filterMap_map, zipIdx_map_fst]
    rfl
  have here : ∀ entry ∈ entries.zipIdx,
      (if entry.2 ∈ edit.dropped then [] else edit.block entry).filterMap read =
          (read entry.1).toList := by
    rintro ⟨entry, index⟩ member
    have listed := mem_zipIdx_iff_getElem?.mp member
    split
    · rename_i isDropped
      rw [unread index entry listed isDropped]
      rfl
    · have noMore : (edit.added index).filterMap read = [] := filterMap_eq_nil_iff.mpr (skips index)
      rw [block, filterMap_cons, same index entry listed, noMore]
      cases read entry <;> rfl
  rw [edit.apply_eq, fromPairs, filterMap_flatMap, filterMap_eq_flatMap_toList]
  exact flatMap_congr here

def additions (entries : List α) : List α :=
  (entries.zipIdx.filter (·.2 ∉ edit.dropped)).flatMap fun entry => edit.added entry.2

theorem nodup_map_apply {entries : List α} (name : α → β) (distinct : (entries.map name).Nodup)
    (same : ∀ index entry, entries[index]? = some entry →
      name (edit.rewrite (entry, index)) = name entry)
    (fresh : ((edit.additions entries).map name).Nodup)
    (free : ∀ index entry, entries[index]? = some entry → index ∉ edit.dropped →
      name entry ∉ (edit.additions entries).map name) :
    ((edit.apply entries).map name).Nodup := by
  let kept := entries.zipIdx.filter (·.2 ∉ edit.dropped)
  have split : (edit.apply entries).Perm (kept.map edit.rewrite ++ edit.additions entries) := by
    have parts := flatMap_append_perm kept (fun entry => [edit.rewrite entry]) fun entry =>
      edit.added entry.2
    rw [← map_eq_flatMap] at parts
    exact parts.symm
  have listed : ∀ entry ∈ kept, entries[entry.2]? = some entry.1 ∧ entry.2 ∉ edit.dropped := by
    intro entry member
    obtain ⟨inside, isKept⟩ := mem_filter.mp member
    exact ⟨mem_zipIdx_iff_getElem?.mp inside, by simpa using isKept⟩
  have names : (kept.map edit.rewrite).map name = kept.map fun entry => name entry.1 := by
    rw [map_map]
    exact map_congr_left fun entry member => same entry.2 entry.1 (listed entry member).1
  have keptDistinct : (kept.map fun entry => name entry.1).Nodup := by
    refine List.Nodup.sublist (filter_sublist.map _) ?_
    rw [← zipIdx_map_fst 0 entries, map_map] at distinct
    exact distinct
  rw [(split.map name).nodup_iff, map_append, names, nodup_append]
  refine ⟨keptDistinct, fresh, ?_⟩
  rintro _ isOld _ isNew rfl
  obtain ⟨entry, member, same⟩ := mem_map.mp isOld
  obtain ⟨place, isKept⟩ := listed entry member
  exact free entry.2 entry.1 place isKept (same ▸ isNew)

/-- An edit that finds the added entries of an earlier one and makes them again changes nothing. -/
theorem apply_fixed {entries : List α} {again : Splice α}
    (repeats : ∀ index entry before after, entries[index]? = some entry → index ∉ edit.dropped →
      edit.apply entries = before ++ edit.block (entry, index) ++ after →
      before.length ∉ again.dropped ∧
        again.block (edit.rewrite (entry, index), before.length) = edit.block (entry, index) ∧
        ∀ j < (edit.added index).length, before.length + 1 + j ∈ again.dropped) :
    again.apply (edit.apply entries) = edit.apply entries := by
  let kept := entries.zipIdx.filter (·.2 ∉ edit.dropped)
  -- The induction is on the entries still to come, behind those that are edited already.
  have suffices_from : ∀ (rest done : List (α × Nat)), kept = done ++ rest →
      (((rest.flatMap edit.block).zipIdx (done.flatMap edit.block).length).flatMap fun entry =>
        if entry.2 ∈ again.dropped then [] else again.block entry) = rest.flatMap edit.block := by
    intro rest
    induction rest with
    | nil => intro done _; rfl
    | cons entry rest ih =>
      intro done split
      have member : entry ∈ kept := by simp [split]
      obtain ⟨inside, isKept⟩ := mem_filter.mp member
      have whole : edit.apply entries = done.flatMap edit.block ++ edit.block entry ++ rest.flatMap
          edit.block := by
        rw [apply]
        change kept.flatMap edit.block = _
        rw [split, flatMap_append, flatMap_cons, append_assoc]
      obtain ⟨headKept, sameBlock, tailDropped⟩ :=
        repeats entry.2 entry.1 _ _ (mem_zipIdx_iff_getElem?.mp inside)
        (by simpa using isKept) whole
      have tailGone :
          (((edit.added entry.2).zipIdx ((done.flatMap edit.block).length + 1)).flatMap fun entry =>
          if entry.2 ∈ again.dropped then [] else again.block entry) = [] := by
        rw [flatMap_eq_nil_iff]
        rintro ⟨result, position⟩ listed
        obtain ⟨lower, place⟩ := mk_mem_zipIdx_iff_le_and_getElem?_sub.mp listed
        have bound := (List.getElem?_eq_some_iff.mp place).1
        have isDropped := tailDropped _ bound
        rw [show (done.flatMap edit.block).length + 1 +
          (position - ((done.flatMap edit.block).length + 1)) = position
          by omega] at isDropped
        simp [isDropped]
      have later := ih (done ++ [entry]) (by simp [split])
      rw [flatMap_append, length_append, flatMap_singleton] at later
      rw [flatMap_cons, zipIdx_append, flatMap_append, later]
      congr 1
      rw [block, zipIdx_cons, flatMap_cons, tailGone, if_neg headKept, append_nil]
      exact sameBlock
  have whole := suffices_from kept [] rfl
  rw [again.apply_eq]
  exact whole

end Splice

end Scribe
