import Scribe.Data.Assoc
import Mathlib.Data.List.Perm.Basic
import Mathlib.Data.List.Lattice

/-! The order half of the editor's three-way merge.

An order edit is recognized by a change of immediate neighbours. The touched
identifiers are taken out of the remote order and placed again in front of the
next identifier that the draft keeps, so the remote order survives elsewhere.
-/

set_option autoImplicit false

namespace Scribe.Editor

open List

def projectedSharedOrder (referenceIds candidateIds : List String) : List String :=
  referenceIds.filter (· ∈ candidateIds)

structure Neighbours where
  next : String
  previous : String
  deriving DecidableEq, Repr

def orderNeighbours (ids : List String) : List (String × Neighbours) :=
  Assoc.ofEntries (ids.zipIdx.map fun (id, index) =>
    (id, { next := ids[index + 1]?.getD ""
           previous := if index = 0 then "" else ids[index - 1]?.getD "" }))

def orderTouchedIds (baseIds candidateIds : List String) : List String :=
  let baseOrder := projectedSharedOrder baseIds candidateIds
  let candidateOrder := projectedSharedOrder candidateIds baseIds
  if baseOrder = candidateOrder then []
  else
    let baseNeighbours := orderNeighbours baseOrder
    let candidateNeighbours := orderNeighbours candidateOrder
    (baseOrder.filter fun id =>
      let before := Assoc.get baseNeighbours id
      let after := Assoc.get candidateNeighbours id
      before.map (·.next) ≠ after.map (·.next) ∨
        before.map (·.previous) ≠ after.map (·.previous)).eraseDups

/-- The scan of `placeIdsAtDraftAnchors`: what each kept identifier collects in
front of it, in the order it is pushed, and what no later anchor takes. -/
structure Buckets where
  nextAnchor : String
  beforeAnchor : List (String × List String)
  atEnd : List String

def Buckets.empty : Buckets := ⟨"", [], []⟩

def collectAtAnchor (retained idsToPlace : List String) (id : String) (buckets : Buckets) : Buckets :=
  if id ∈ retained then { buckets with nextAnchor := id }
  else if id ∈ idsToPlace then
    if buckets.nextAnchor ≠ "" then
      { buckets with
        beforeAnchor := Assoc.set buckets.beforeAnchor buckets.nextAnchor
          ((Assoc.get buckets.beforeAnchor buckets.nextAnchor).getD [] ++ [id]) }
    else { buckets with atEnd := buckets.atEnd ++ [id] }
  else buckets

/-- Emit the kept identifiers with their buckets. Reversing a bucket is in place
in the source, so the map is carried along with the reversed bucket. -/
def emitRetained : List String → List (String × List String) → List String
  | [], _ => []
  | id :: rest, beforeAnchor =>
      match Assoc.get beforeAnchor id with
      | some additions =>
          additions.reverse ++ id :: emitRetained rest (Assoc.set beforeAnchor id additions.reverse)
      | none => id :: emitRetained rest beforeAnchor

def placeIdsAtDraftAnchors (currentIds draftIds idsToPlace : List String) : List String :=
  if idsToPlace = [] then currentIds
  else
    let retained := currentIds.filter (· ∉ idsToPlace)
    let buckets := draftIds.foldr (collectAtAnchor retained idsToPlace) .empty
    emitRetained retained buckets.beforeAnchor ++ buckets.atEnd.reverse

/-! ## Placement as a cut of the draft order

The draft, restricted to what is kept or placed, is a sequence of runs of placed
identifiers, each closed by a kept one, and a last open run. -/

section
variable (retained placed : List String)

def draftRuns : List String → List (String × List String) × List String
  | [] => ([], [])
  | id :: rest =>
      let (runs, open_) := draftRuns rest
      if id ∈ retained then ((id, []) :: runs, open_)
      else if id ∈ placed then
        match runs with
        | (anchor, run) :: more => ((anchor, id :: run) :: more, open_)
        | [] => ([], id :: open_)
      else (runs, open_)

def runBefore (draft : List String) (anchor : String) : List String :=
  (Assoc.get (draftRuns retained placed draft).1 anchor).getD []

def flattenRuns (runs : List (String × List String)) : List String :=
  runs.flatMap fun run => run.2 ++ [run.1]

theorem draftRuns_flatten (draft : List String) :
    flattenRuns (draftRuns retained placed draft).1 ++ (draftRuns retained placed draft).2 =
      draft.filter fun id => id ∈ retained ∨ id ∈ placed := by
  induction draft with
  | nil => rfl
  | cons id rest ih =>
    simp only [draftRuns]
    by_cases kept : id ∈ retained
    · simp only [kept, if_true, true_or, decide_true, filter_cons_of_pos]
      rw [← ih]
      simp [flattenRuns]
    · by_cases moved : id ∈ placed
      · simp only [kept, moved, if_true, if_false, or_true, decide_true, filter_cons_of_pos]
        rw [← ih]
        cases runs : (draftRuns retained placed rest).1 with
        | nil => simp [flattenRuns]
        | cons run more => simp [flattenRuns]
      · simpa [kept, moved] using ih

theorem draftRuns_anchors (draft : List String) :
    (draftRuns retained placed draft).1.map Prod.fst = draft.filter (· ∈ retained) := by
  induction draft with
  | nil => rfl
  | cons id rest ih =>
    simp only [draftRuns]
    by_cases kept : id ∈ retained
    · simp [kept, ih]
    · by_cases moved : id ∈ placed
      · cases runs : (draftRuns retained placed rest).1 with
        | nil => simpa [kept, moved, runs] using ih
        | cons run more => simpa [kept, moved, runs] using ih
      · simpa [kept, moved] using ih

/-- The scan from the end of the draft collects exactly the runs of the draft. -/
theorem collect_draftRuns (draft : List String) (distinct : draft.Nodup) (named : "" ∉ retained) :
    let buckets := draft.foldr (collectAtAnchor retained placed) .empty
    let runs := draftRuns retained placed draft
    buckets.nextAnchor = (runs.1.head?.map Prod.fst).getD "" ∧ buckets.atEnd = runs.2.reverse ∧
      (∀ anchor, ((Assoc.get buckets.beforeAnchor anchor).getD []) =
        (runBefore retained placed draft anchor).reverse) := by
  -- The scan runs from the end, so the induction follows it: the head is what is scanned last.
  induction draft with
  | nil => simp [Buckets.empty, draftRuns, runBefore]
  | cons id rest ih =>
    obtain ⟨fresh, distinctRest⟩ := nodup_cons.mp distinct
    obtain ⟨anchorEq, endEq, bucketEq⟩ := ih distinctRest
    have anchors := draftRuns_anchors retained placed rest
    simp only [foldr_cons]
    generalize state : rest.foldr (collectAtAnchor retained placed) .empty = buckets at *
    simp only [runBefore] at bucketEq
    by_cases kept : id ∈ retained
    · have unseen : id ∉ (draftRuns retained placed rest).1.map Prod.fst := by
        rw [anchors]
        exact fun member => fresh (mem_of_mem_filter member)
      refine ⟨by simp [collectAtAnchor, kept, draftRuns], ?_, ?_⟩
      · simpa [collectAtAnchor, kept, draftRuns] using endEq
      · intro anchor
        simp only [collectAtAnchor, kept, if_true, runBefore, draftRuns, Assoc.get]
        rw [bucketEq anchor]
        by_cases same : id = anchor
        · have missing := (Assoc.get_eq_none_iff _ _).mpr (show id ∉ Assoc.keys _ from unseen)
          simp [← same, missing]
        · simp [same]
    · by_cases moved : id ∈ placed
      · cases runs : (draftRuns retained placed rest).1 with
        | nil =>
          -- No kept identifier follows: the moved one waits for the end of the list.
          have noAnchor : buckets.nextAnchor = "" := by simpa [runs] using anchorEq
          refine ⟨?_, ?_, ?_⟩
          · simp [collectAtAnchor, kept, moved, noAnchor, draftRuns, runs]
          · simp [collectAtAnchor, kept, moved, noAnchor, draftRuns, runs, endEq]
          · intro anchor
            have before := bucketEq anchor
            simpa [collectAtAnchor, kept, moved, noAnchor, runBefore, draftRuns, runs] using before
        | cons run more =>
          obtain ⟨first, collected⟩ := run
          have anchorIs : buckets.nextAnchor = first := by simpa [runs] using anchorEq
          have firstKept : first ∈ retained := by
            have member : first ∈ rest.filter (· ∈ retained) := by rw [← anchors, runs]; simp
            simpa using (mem_filter.mp member).2
          have nonempty : first ≠ "" := fun empty => named (empty ▸ firstKept)
          refine ⟨?_, ?_, ?_⟩
          · simp [collectAtAnchor, kept, moved, anchorIs, nonempty, draftRuns, runs]
          · simpa [collectAtAnchor, kept, moved, anchorIs, nonempty, draftRuns, runs] using endEq
          · intro anchor
            have before := bucketEq anchor
            have beforeFirst := bucketEq first
            simp only [runs, Assoc.get, if_true, Option.getD_some] at beforeFirst
            simp only [collectAtAnchor, kept, moved, anchorIs, nonempty, if_true, if_false, ne_eq,
              not_false_eq_true, runBefore, draftRuns, runs, Assoc.get_set, Assoc.get]
            by_cases same : first = anchor
            · subst same
              simp [beforeFirst]
            · simpa [same, runs, Assoc.get] using before
      · refine ⟨?_, ?_, ?_⟩
        · simpa [collectAtAnchor, kept, moved, draftRuns] using anchorEq
        · simpa [collectAtAnchor, kept, moved, draftRuns] using endEq
        · intro anchor
          simpa [collectAtAnchor, kept, moved, runBefore, draftRuns] using bucketEq anchor

end

theorem emitRetained_eq (retained : List String) (distinct : retained.Nodup)
    (beforeAnchor : List (String × List String)) :
    emitRetained retained beforeAnchor =
      retained.flatMap fun id => ((Assoc.get beforeAnchor id).getD []).reverse ++ [id] := by
  induction retained generalizing beforeAnchor with
  | nil => rfl
  | cons id rest ih =>
    obtain ⟨fresh, distinctRest⟩ := nodup_cons.mp distinct
    simp only [emitRetained, flatMap_cons]
    cases found : Assoc.get beforeAnchor id with
    | none => simp [ih distinctRest]
    | some additions =>
      have later : ∀ other ∈ rest,
          Assoc.get (Assoc.set beforeAnchor id additions.reverse) other =
              Assoc.get beforeAnchor other := by
        intro other member
        exact Assoc.get_set_of_ne _ _ fun same => fresh (same ▸ member)
      have tail : (rest.flatMap fun other =>
          ((Assoc.get (Assoc.set beforeAnchor id additions.reverse) other).getD []).reverse ++
            [other]) =
          rest.flatMap fun other => ((Assoc.get beforeAnchor other).getD []).reverse ++ [other] := by
        apply flatMap_congr
        intro other member
        rw [later other member]
      simp only [ih distinctRest]
      rw [tail]
      simp

/-- The result of a placement: every kept identifier follows the placed ones that
the draft lists between it and the kept identifier before it. -/
theorem placeIdsAtDraftAnchors_eq {currentIds draftIds : List String} (idsToPlace : List String)
    (distinctCurrent : currentIds.Nodup) (distinctDraft : draftIds.Nodup) (named : "" ∉ currentIds) :
    placeIdsAtDraftAnchors currentIds draftIds idsToPlace =
      (currentIds.filter (· ∉ idsToPlace)).flatMap (fun id =>
        runBefore (currentIds.filter (· ∉ idsToPlace)) idsToPlace draftIds id ++ [id]) ++
      (draftRuns (currentIds.filter (· ∉ idsToPlace)) idsToPlace draftIds).2 := by
  by_cases none : idsToPlace = []
  · have runsEmpty : ∀ draft : List String, (draftRuns currentIds [] draft).2 = [] ∧
        ∀ run ∈ (draftRuns currentIds [] draft).1, run.2 = [] := by
      intro draft
      induction draft with
      | nil => simp [draftRuns]
      | cons id rest ih =>
        by_cases kept : id ∈ currentIds
        · simpa [draftRuns, kept] using ih
        · simpa [draftRuns, kept] using ih
    have noneBefore : ∀ id, runBefore currentIds [] draftIds id = [] := by
      intro id
      simp only [runBefore]
      cases found : Assoc.get (draftRuns currentIds [] draftIds).1 id with
      | none => rfl
      | some run => exact (runsEmpty draftIds).2 _ (Assoc.mem_of_get found)
    simp [placeIdsAtDraftAnchors, none, noneBefore, (runsEmpty draftIds).1]
  · set retained := currentIds.filter (· ∉ idsToPlace) with retainedDef
    have namedRetained : "" ∉ retained := fun member => named (mem_of_mem_filter member)
    obtain ⟨_, endEq, bucketEq⟩ :=
      collect_draftRuns retained idsToPlace draftIds distinctDraft namedRetained
    simp only [placeIdsAtDraftAnchors, none, if_false]
    rw [← retainedDef, emitRetained_eq retained (distinctCurrent.filter _), endEq]
    simp only [bucketEq, reverse_reverse]

/-! ## What a placement keeps -/

theorem flatMap_ite_nil {α β : Type} (p : α → Prop) [DecidablePred p] (f : α → List β)
    (values : List α) :
    (values.flatMap fun value => if p value then f value else []) =
      (values.filter fun value => p value).flatMap f := by
  induction values with
  | nil => rfl
  | cons value rest ih => by_cases kept : p value <;> simp [kept, ih]

theorem flattenRuns_eq (runs : List (String × List String)) (distinct : (Assoc.keys runs).Nodup) :
    flattenRuns runs = (Assoc.keys runs).flatMap fun anchor => (Assoc.get runs anchor).getD [] ++
      [anchor] := by
  simp only [flattenRuns, Assoc.keys, flatMap_map]
  apply flatMap_congr
  intro run member
  rw [Assoc.get_of_mem distinct (show (run.1, run.2) ∈ runs from member)]
  rfl

section
variable {currentIds draftIds : List String} (idsToPlace : List String)
  (distinctCurrent : currentIds.Nodup) (distinctDraft : draftIds.Nodup) (named : "" ∉ currentIds)

theorem runBefore_of_not_mem (retained placed draft : List String) {anchor : String}
    (absent : anchor ∉ draft) : runBefore retained placed draft anchor = [] := by
  have missing : anchor ∉ Assoc.keys (draftRuns retained placed draft).1 := by
    rw [Assoc.keys, draftRuns_anchors]
    exact fun member => absent (mem_of_mem_filter member)
  simp [runBefore, (Assoc.get_eq_none_iff _ _).mpr missing]

theorem mem_runBefore {retained placed draft : List String} {anchor id : String}
    (member : id ∈ runBefore retained placed draft anchor) : id ∈ draft := by
  have listed : id ∈ flattenRuns (draftRuns retained placed draft).1 := by
    simp only [runBefore] at member
    cases found : Assoc.get (draftRuns retained placed draft).1 anchor with
    | none => simp [found] at member
    | some run =>
      rw [found] at member
      exact mem_flatMap.mpr ⟨_, Assoc.mem_of_get found, by simpa using Or.inl member⟩
  have kept : id ∈ draft.filter fun id => id ∈ retained ∨ id ∈ placed := by
    rw [← draftRuns_flatten]
    exact mem_append_left _ listed
  exact mem_of_mem_filter kept

theorem draftRuns_placed (retained placed draft : List String) :
    (∀ run ∈ (draftRuns retained placed draft).1, ∀ id ∈ run.2, id ∉ retained) ∧
      ∀ id ∈ (draftRuns retained placed draft).2, id ∉ retained := by
  induction draft with
  | nil => simp [draftRuns]
  | cons id rest ih =>
    obtain ⟨closed, final⟩ := ih
    simp only [draftRuns]
    by_cases kept : id ∈ retained
    · simp only [kept, if_true, forall_mem_cons]
      exact ⟨⟨by simp, closed⟩, final⟩
    · by_cases moved : id ∈ placed
      · cases runs : (draftRuns retained placed rest).1 with
        | nil => simpa [kept, moved] using final
        | cons run more =>
          rw [runs] at closed
          simp only [forall_mem_cons] at closed
          simp only [kept, moved, if_true, if_false, forall_mem_cons, not_false_eq_true, true_and]
          exact ⟨closed, final⟩
      · simp only [kept, moved, if_false]
        exact ⟨closed, final⟩

theorem runBefore_not_retained {retained placed draft : List String} {anchor id : String}
    (member : id ∈ runBefore retained placed draft anchor) : id ∉ retained := by
  simp only [runBefore] at member
  cases found : Assoc.get (draftRuns retained placed draft).1 anchor with
  | none => simp [found] at member
  | some run =>
    rw [found] at member
    exact (draftRuns_placed retained placed draft).1 _ (Assoc.mem_of_get found) id member

include distinctCurrent distinctDraft in
theorem placed_anchors_perm :
    ((currentIds.filter (· ∉ idsToPlace)).filter (· ∈ draftIds)).Perm
      (draftIds.filter (· ∈ currentIds.filter (· ∉ idsToPlace))) := by
  apply (perm_ext_iff_of_nodup ((distinctCurrent.filter _).filter _) (distinctDraft.filter _)).mpr
  intro id
  simp only [mem_filter, decide_eq_true_eq]
  tauto

include distinctCurrent distinctDraft named

theorem placeIdsAtDraftAnchors_perm :
    (placeIdsAtDraftAnchors currentIds draftIds idsToPlace).Perm
      ((currentIds.filter (· ∉ idsToPlace)).filter (· ∉ draftIds) ++
        draftIds.filter fun id => id ∈ currentIds.filter (· ∉ idsToPlace) ∨ id ∈ idsToPlace) := by
  rw [placeIdsAtDraftAnchors_eq idsToPlace distinctCurrent distinctDraft named]
  have anchors := placed_anchors_perm idsToPlace distinctCurrent distinctDraft
  set retained := currentIds.filter (· ∉ idsToPlace)
  have outside : (retained.filter (· ∉ draftIds)).flatMap
      (fun id => runBefore retained idsToPlace draftIds id ++ [id]) =
          retained.filter (· ∉ draftIds) := by
    have each : ∀ id ∈ retained.filter (· ∉ draftIds),
        runBefore retained idsToPlace draftIds id ++ [id] = [id] := by
      intro id member
      rw [runBefore_of_not_mem _ _ _ (by simpa using (mem_filter.mp member).2)]
      rfl
    rw [flatMap_congr each]
    simp
  have inside : ((retained.filter (· ∈ draftIds)).flatMap
      (fun id => runBefore retained idsToPlace draftIds id ++ [id])).Perm
      (flattenRuns (draftRuns retained idsToPlace draftIds).1) := by
    rw [flattenRuns_eq _ (by rw [Assoc.keys, draftRuns_anchors]; exact distinctDraft.filter _),
      Assoc.keys, draftRuns_anchors]
    exact anchors.flatMap_right _
  have cut := (filter_append_perm (fun id => decide (id ∈ draftIds)) retained).symm.flatMap_right
    fun id => runBefore retained idsToPlace draftIds id ++ [id]
  rw [flatMap_append] at cut
  have complement : (retained.filter fun id => !decide (id ∈ draftIds)) =
      retained.filter (· ∉ draftIds) :=
    filter_congr fun id _ => by simp
  rw [complement, outside] at cut
  rw [← draftRuns_flatten]
  refine ((cut.trans (inside.append_right _)).append_right _).trans ?_
  rw [← append_assoc]
  exact perm_append_comm.append_right _

theorem mem_placeIdsAtDraftAnchors (id : String) :
    id ∈ placeIdsAtDraftAnchors currentIds draftIds idsToPlace ↔
      (id ∈ currentIds ∧ id ∉ idsToPlace) ∨ (id ∈ draftIds ∧ id ∈ idsToPlace) := by
  rw [(placeIdsAtDraftAnchors_perm idsToPlace distinctCurrent distinctDraft named).mem_iff]
  simp only [mem_append, mem_filter, decide_eq_true_eq]
  tauto

theorem nodup_placeIdsAtDraftAnchors :
    (placeIdsAtDraftAnchors currentIds draftIds idsToPlace).Nodup := by
  rw [(placeIdsAtDraftAnchors_perm idsToPlace distinctCurrent distinctDraft named).nodup_iff]
  refine nodup_append.mpr ⟨(distinctCurrent.filter _).filter _, distinctDraft.filter _, ?_⟩
  intro a outside b inside same
  have absent := (mem_filter.mp outside).2
  simp only [decide_eq_true_eq] at absent
  exact absent (same ▸ mem_of_mem_filter inside)

theorem placeIdsAtDraftAnchors_draft_order
    (ordered : (currentIds.filter (· ∉ idsToPlace)).filter (· ∈ draftIds) =
      draftIds.filter (· ∈ currentIds.filter (· ∉ idsToPlace))) :
    (placeIdsAtDraftAnchors currentIds draftIds idsToPlace).filter (· ∈ draftIds) =
      draftIds.filter (· ∈ placeIdsAtDraftAnchors currentIds draftIds idsToPlace) := by
  have member := mem_placeIdsAtDraftAnchors idsToPlace distinctCurrent distinctDraft named
  have placement := placeIdsAtDraftAnchors_eq idsToPlace distinctCurrent distinctDraft named
  have target : draftIds.filter (· ∈ placeIdsAtDraftAnchors currentIds draftIds idsToPlace) =
      draftIds.filter fun id => id ∈ currentIds.filter (· ∉ idsToPlace) ∨ id ∈ idsToPlace := by
    apply filter_congr
    intro id listed
    simp only [member, mem_filter, decide_eq_true_eq, decide_eq_decide]
    tauto
  rw [target, placement]
  set retained := currentIds.filter (· ∉ idsToPlace)
  have tail : (draftRuns retained idsToPlace draftIds).2.filter (· ∈ draftIds) =
      (draftRuns retained idsToPlace draftIds).2 := by
    apply filter_eq_self.mpr
    intro id listed
    have kept : id ∈ draftIds.filter fun id => id ∈ retained ∨ id ∈ idsToPlace := by
      rw [← draftRuns_flatten]
      exact mem_append_right _ listed
    simpa using mem_of_mem_filter kept
  -- A kept identifier outside the draft carries no run, so filtering drops exactly that identifier.
  have each : ∀ id, ((runBefore retained idsToPlace draftIds id ++ [id]).filter (· ∈ draftIds)) =
      if id ∈ draftIds then runBefore retained idsToPlace draftIds id ++ [id] else [] := by
    intro id
    by_cases listed : id ∈ draftIds
    · rw [if_pos listed]
      apply filter_eq_self.mpr
      intro other found
      rcases mem_append.mp found with before | last
      · simpa using mem_runBefore before
      · rw [mem_singleton] at last
        simpa [last] using listed
    · simp [runBefore_of_not_mem _ _ _ listed, listed]
  have middle : (retained.flatMap fun id => runBefore retained idsToPlace draftIds id ++ [id]).filter
      (· ∈ draftIds) = (retained.filter (· ∈ draftIds)).flatMap
        fun id => runBefore retained idsToPlace draftIds id ++ [id] := by
    rw [filter_flatMap, flatMap_congr fun id _ => each id, flatMap_ite_nil]
  rw [filter_append, tail, middle, ordered, ← draftRuns_flatten,
    flattenRuns_eq _ (by rw [Assoc.keys, draftRuns_anchors]; exact distinctDraft.filter _),
    Assoc.keys, draftRuns_anchors]
  rfl

theorem placeIdsAtDraftAnchors_retained :
    (placeIdsAtDraftAnchors currentIds draftIds idsToPlace).filter
      (· ∈ currentIds.filter (· ∉ idsToPlace)) =
      currentIds.filter (· ∉ idsToPlace) := by
  rw [placeIdsAtDraftAnchors_eq idsToPlace distinctCurrent distinctDraft named]
  set retained := currentIds.filter (· ∉ idsToPlace)
  have final : (draftRuns retained idsToPlace draftIds).2.filter (· ∈ retained) = [] := by
    apply filter_eq_nil_iff.mpr
    intro id member
    simpa using (draftRuns_placed retained idsToPlace draftIds).2 id member
  have each : ∀ id ∈ retained, (runBefore retained idsToPlace draftIds id ++ [id]).filter
      (· ∈ retained) = [id] := by
    intro id kept
    have before : (runBefore retained idsToPlace draftIds id).filter (· ∈ retained) = [] := by
      apply filter_eq_nil_iff.mpr
      intro other member
      simpa using runBefore_not_retained member
    rw [filter_append, before]
    simp [kept]
  rw [filter_append, final, append_nil, filter_flatMap, flatMap_congr each]
  simp

end

end Scribe.Editor
