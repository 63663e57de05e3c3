import Scribe.Data.Json
import Mathlib.Data.List.Perm.Basic

/-! The comparison of JSON values that ignores the order of keys.

On values whose objects list each key once the comparison is an equivalence.
-/

set_option autoImplicit false

namespace Scribe.Json

open List

mutual

/-- Every object lists each key once. -/
def Proper : Json → Prop
  | .arr entries => ProperEntries entries
  | .obj fields => (Assoc.keys fields).Nodup ∧ ProperFields fields
  | .null | .bool _ | .num _ | .str _ => True

def ProperEntries : List Json → Prop
  | [] => True
  | entry :: rest => Proper entry ∧ ProperEntries rest

def ProperFields : List (String × Json) → Prop
  | [] => True
  | (_, value) :: rest => Proper value ∧ ProperFields rest

end

theorem ProperFields.of_mem {fields : List (String × Json)} (proper : ProperFields fields)
    {key : String} {value : Json} (member : (key, value) ∈ fields) : Proper value := by
  induction fields with
  | nil => cases member
  | cons entry rest ih =>
    rcases mem_cons.mp member with rfl | there
    · exact proper.1
    · exact ih proper.2 there

theorem sameFields_iff {fields others : List (String × Json)} :
    sameFields fields others = true ↔
      ∀ key value, (key, value) ∈ fields → ∃ found, Assoc.get others key = some found ∧
        same value found = true := by
  induction fields with
  | nil => simp [sameFields]
  | cons entry rest ih =>
    obtain ⟨key, value⟩ := entry
    rw [sameFields, Bool.and_eq_true, ih]
    constructor
    · rintro ⟨head, tail⟩ other found member
      rcases mem_cons.mp member with isHead | there
      · obtain ⟨rfl, rfl⟩ := Prod.mk.inj isHead
        cases isFound : Assoc.get others other with
        | none => simp [isFound] at head
        | some here => exact ⟨here, rfl, by simpa [isFound] using head⟩
      · exact tail other found there
    · intro all
      refine ⟨?_, fun other found member => all other found (mem_cons_of_mem _ member)⟩
      obtain ⟨found, isFound, isSame⟩ := all key value mem_cons_self
      simpa [isFound] using isSame

theorem same_obj_iff {fields others : List (String × Json)} :
    same (.obj fields) (.obj others) = true ↔ fields.length = others.length ∧
      ∀ key value, (key, value) ∈ fields → ∃ found, Assoc.get others key = some found ∧
        same value found = true := by
  rw [same, Bool.and_eq_true, beq_iff_eq, sameFields_iff]

theorem keys_subset_of_same {fields others : List (String × Json)} (proper : (Assoc.keys fields).Nodup)
    (isSame : same (.obj fields) (.obj others) = true) : Assoc.keys others ⊆ Assoc.keys fields := by
  obtain ⟨size, all⟩ := same_obj_iff.mp isSame
  have subset : Assoc.keys fields ⊆ Assoc.keys others := by
    intro key member
    obtain ⟨entry, there, rfl⟩ := mem_map.mp member
    obtain ⟨found, isFound, _⟩ := all entry.1 entry.2 there
    exact (Assoc.get_isSome_iff others entry.1).mp (by rw [isFound]; rfl)
  have perm := (subperm_of_subset proper subset).perm_of_length_le (by simp [Assoc.keys, size])
  exact perm.symm.subset

mutual

theorem same_refl : ∀ value : Json, Proper value → same value value = true
  | .null, _ | .bool _, _ | .num _, _ | .str _, _ => by simp [same]
  | .arr entries, proper => by
    rw [same]
    exact sameList_refl entries proper
  | .obj fields, proper => same_obj_iff.mpr ⟨rfl, fun key value member =>
      ⟨value, Assoc.get_of_mem proper.1 member, sameFields_refl fields proper.2 key value member⟩⟩

theorem sameList_refl : ∀ entries : List Json, ProperEntries entries → sameList entries entries = true
  | [], _ => rfl
  | entry :: rest, proper => by
    rw [sameList, same_refl entry proper.1, sameList_refl rest proper.2]
    rfl

theorem sameFields_refl : ∀ fields : List (String × Json), ProperFields fields →
    ∀ key value, (key, value) ∈ fields → same value value = true
  | [], _, _, _, member => absurd member not_mem_nil
  | (_, first) :: rest, proper, key, value, member => by
    rcases mem_cons.mp member with isHead | there
    · obtain ⟨rfl, rfl⟩ := Prod.mk.inj isHead
      exact same_refl _ proper.1
    · exact sameFields_refl rest proper.2 key value there

end

mutual

theorem same_symm : ∀ left right : Json, Proper left → Proper right → same left right = true →
      same right left = true
  | .null, right, _, _, isSame | .bool _, right, _, _, isSame | .num _, right, _, _, isSame
  | .str _, right, _, _, isSame => by
    cases right <;> simp_all [same]
  | .arr entries, right, proper, properToo, isSame => by
    cases right with
    | arr others => exact sameList_symm entries others proper properToo isSame
    | _ => simp [same] at isSame
  | .obj fields, right, proper, properToo, isSame => by
    cases right with
    | obj others =>
      obtain ⟨size, all⟩ := same_obj_iff.mp isSame
      refine same_obj_iff.mpr ⟨size.symm, fun key value member => ?_⟩
      have listed := keys_subset_of_same proper.1 isSame (mem_map.mpr ⟨_, member, rfl⟩)
      obtain ⟨found, isFound⟩ :=
        Option.isSome_iff_exists.mp ((Assoc.get_isSome_iff fields key).mpr listed)
      have here := Assoc.mem_of_get isFound
      obtain ⟨other, isOther, matched⟩ := all key found here
      rw [Assoc.get_of_mem properToo.1 member, Option.some.injEq] at isOther
      subst isOther
      exact ⟨found, isFound, sameFields_symm fields proper.2 key found here value
        (properToo.2.of_mem member) matched⟩
    | _ => simp [same] at isSame

theorem sameList_symm : ∀ entries others : List Json, ProperEntries entries → ProperEntries others →
    sameList entries others = true → sameList others entries = true
  | [], others, _, _, isSame => by
    cases others with
    | nil => rfl
    | cons other rest => simp [sameList] at isSame
  | entry :: rest, others, proper, properToo, isSame => by
    cases others with
    | nil => simp [sameList] at isSame
    | cons other more =>
      rw [sameList, Bool.and_eq_true] at isSame ⊢
      exact ⟨same_symm entry other proper.1 properToo.1 isSame.1,
        sameList_symm rest more proper.2 properToo.2 isSame.2⟩

theorem sameFields_symm : ∀ fields : List (String × Json), ProperFields fields → ∀ key value,
      (key, value) ∈ fields →
    ∀ other, Proper other → same value other = true → same other value = true
  | [], _, _, _, member, _, _, _ => absurd member not_mem_nil
  | (_, first) :: rest, proper, key, value, member, other, properToo, isSame => by
    rcases mem_cons.mp member with isHead | there
    · obtain ⟨rfl, rfl⟩ := Prod.mk.inj isHead
      exact same_symm _ other proper.1 properToo isSame
    · exact sameFields_symm rest proper.2 key value there other properToo isSame

end

mutual

theorem same_trans : ∀ first second third : Json, same first second = true → same second third = true →
    same first third = true
  | .null, second, third, isSame, isSameToo | .bool _, second, third, isSame, isSameToo
  | .num _, second, third, isSame, isSameToo | .str _, second, third, isSame, isSameToo => by
    cases second <;> cases third <;> simp_all [same]
  | .arr entries, second, third, isSame, isSameToo => by
    cases second with
    | arr others => cases third with
      | arr more => exact sameList_trans entries others more isSame isSameToo
      | _ => simp [same] at isSameToo
    | _ => simp [same] at isSame
  | .obj fields, second, third, isSame, isSameToo => by
    cases second with
    | obj others => cases third with
      | obj more =>
        obtain ⟨size, all⟩ := same_obj_iff.mp isSame
        obtain ⟨sizeToo, allToo⟩ := same_obj_iff.mp isSameToo
        refine same_obj_iff.mpr ⟨size.trans sizeToo, fun key value member => ?_⟩
        obtain ⟨middle, isMiddle, matched⟩ := all key value member
        obtain ⟨last, isLast, matchedToo⟩ := allToo key middle (Assoc.mem_of_get isMiddle)
        exact ⟨last, isLast, sameFields_trans fields key value member middle last matched matchedToo⟩
      | _ => simp [same] at isSameToo
    | _ => simp [same] at isSame

theorem sameList_trans : ∀ first second third : List Json, sameList first second = true →
      sameList second third = true →
    sameList first third = true
  | [], second, third, isSame, isSameToo => by
    cases second with
    | nil => exact isSameToo
    | cons other rest => simp [sameList] at isSame
  | entry :: rest, second, third, isSame, isSameToo => by
    cases second with
    | nil => simp [sameList] at isSame
    | cons other others => cases third with
      | nil => simp [sameList] at isSameToo
      | cons last lasts =>
        rw [sameList, Bool.and_eq_true] at isSame isSameToo ⊢
        exact ⟨same_trans entry other last isSame.1 isSameToo.1,
          sameList_trans rest others lasts isSame.2 isSameToo.2⟩

theorem sameFields_trans : ∀ fields : List (String × Json), ∀ key value, (key, value) ∈ fields →
      ∀ second third,
    same value second = true → same second third = true → same value third = true
  | [], _, _, member, _, _, _, _ => absurd member not_mem_nil
  | (_, first) :: rest, key, value, member, second, third, isSame, isSameToo => by
    rcases mem_cons.mp member with isHead | there
    · obtain ⟨rfl, rfl⟩ := Prod.mk.inj isHead
      exact same_trans _ second third isSame isSameToo
    · exact sameFields_trans rest key value there second third isSame isSameToo

end

end Scribe.Json
