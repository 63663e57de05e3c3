import Scribe.Editor.Session

/-! What the editor's three-way merge keeps.

At each identifier the merged page has the draft's value where the draft differs
from the base and the remote's value elsewhere. The order half is weaker: it
keeps the draft's order exactly when the identifiers it leaves in place already
stand in that order.
-/

set_option autoImplicit false

namespace Scribe.Editor

open List

def AnnotationPage.at? (page : AnnotationPage) (id : String) : Option Json :=
  page.items.find? fun item => annotationId item = id

def AnnotationPage.ids (page : AnnotationPage) : List String := page.items.map annotationId

structure DistinctIds (page : AnnotationPage) : Prop where
  nodup : page.ids.Nodup
  named : "" ∉ page.ids

/-- `result` is the three-way merge of the annotations of `draft` and `remote` over `base`. -/
structure ThreeWay (base draft remote result : AnnotationPage) : Prop where
  nodup : result.ids.Nodup
  origin : ∀ id ∈ result.ids, id ∈ draft.ids ∨ id ∈ remote.ids
  changed : ∀ id, sameOptional (base.at? id) (draft.at? id) = false → result.at? id = draft.at? id
  untouched : ∀ id, sameOptional (base.at? id) (draft.at? id) = true → result.at? id = remote.at? id

/-! ## Pages as maps -/

theorem get_map_annotationId (items : List Json) (id : String) :
    Assoc.get (items.map fun item => (annotationId item, item)) id =
      items.find? fun item => annotationId item = id := by
  induction items with
  | nil => rfl
  | cons item rest ih =>
    by_cases found : annotationId item = id
    · simp [Assoc.get, found]
    · simp [Assoc.get, found, ih]

theorem DistinctIds.itemsById_eq {page : AnnotationPage} (distinct : DistinctIds page) :
    itemsById (some page) = page.items.map fun item => (annotationId item, item) := by
  have all : (page.items.filter fun item => annotationId item ≠ "") = page.items := by
    apply filter_eq_self.mpr
    intro item member
    have named : annotationId item ≠ "" := by
      intro empty
      exact distinct.named (mem_map.mpr ⟨item, member, empty⟩)
    simpa using named
  simp only [itemsById, all]
  apply Assoc.ofEntries_of_nodup
  simpa [Assoc.keys, Function.comp_def, AnnotationPage.ids] using distinct.nodup

theorem DistinctIds.get_itemsById {page : AnnotationPage} (distinct : DistinctIds page) (id : String) :
    Assoc.get (itemsById (some page)) id = page.at? id := by
  rw [distinct.itemsById_eq, get_map_annotationId]
  rfl

theorem AnnotationPage.at?_id {page : AnnotationPage} {id : String} {item : Json}
    (found : page.at? id = some item) : annotationId item = id := by
  simpa using find?_some found

theorem AnnotationPage.at?_isSome_iff (page : AnnotationPage) (id : String) :
    (page.at? id).isSome = true ↔ id ∈ page.ids := by
  simp [AnnotationPage.at?, AnnotationPage.ids, find?_isSome]

theorem AnnotationPage.at?_eq_none {page : AnnotationPage} {id : String} (absent : id ∉ page.ids) :
    page.at? id = none := by
  rw [← AnnotationPage.at?_isSome_iff] at absent
  simpa using absent

theorem pagesEqual_at {left right : AnnotationPage} (distinctLeft : DistinctIds left)
    (distinctRight : DistinctIds right) (equal : pagesEqual (some left) (some right) = true)
    (id : String) :
    left.at? id = right.at? id ∨ sameOptional (left.at? id) (right.at? id) = true := by
  simp only [pagesEqual, Bool.or_eq_true, beq_iff_eq, Option.some.injEq] at equal
  rcases equal with rfl | empty
  · exact Or.inl rfl
  · right
    rw [← distinctLeft.get_itemsById, ← distinctRight.get_itemsById]
    by_cases listed : id ∈ Assoc.keys (itemsById (some left)) ++ Assoc.keys (itemsById (some right))
    · simp only [patchIsEmpty, createPagePatch, Bool.and_eq_true, List.isEmpty_iff] at empty
      have unchanged := filterMap_eq_nil_iff.mp empty.1.1 id (mem_eraseDups.mpr listed)
      by_contra apart
      simp [apart] at unchanged
    · rw [mem_append, not_or] at listed
      rw [(Assoc.get_eq_none_iff _ _).mpr listed.1, (Assoc.get_eq_none_iff _ _).mpr listed.2]
      rfl

/-! ## The identifiers the merge visits -/

section
variable {base draft remote : AnnotationPage}

theorem mem_orderTouchedIds {baseIds candidateIds : List String} {id : String}
    (touched : id ∈ orderTouchedIds baseIds candidateIds) : id ∈ baseIds ∧ id ∈ candidateIds := by
  simp only [orderTouchedIds] at touched
  split at touched
  · simp at touched
  · have member := mem_of_mem_filter (mem_eraseDups.mp touched)
    simpa [projectedSharedOrder] using member

/-- The identifiers the user moved that the remote page still has. -/
def locallyReordered (base draft remote : AnnotationPage) : List String :=
  (orderTouchedIds base.ids draft.ids).filter (· ∈ remote.ids)

/-- The remote order after its moved identifiers are placed as in the draft. -/
def reorderedIds (base draft remote : AnnotationPage) : List String :=
  placeIdsAtDraftAnchors remote.ids draft.ids (locallyReordered base draft remote)

def localOnlyIds (base draft remote : AnnotationPage) : List String :=
  (draft.ids.filter (· ∉ reorderedIds base draft remote)).eraseDups

theorem mergeReadingOrder_ids (base draft remote : AnnotationPage) :
    (mergeReadingOrder base draft remote).ids =
      placeIdsAtDraftAnchors (reorderedIds base draft remote) draft.ids
        (localOnlyIds base draft remote) :=
  rfl

variable (distinctDraft : DistinctIds draft) (distinctRemote : DistinctIds remote)
include distinctDraft distinctRemote

theorem mem_reorderedIds (id : String) : id ∈ reorderedIds base draft remote ↔ id ∈ remote.ids := by
  rw [reorderedIds, mem_placeIdsAtDraftAnchors _ distinctRemote.nodup distinctDraft.nodup
    distinctRemote.named]
  constructor
  · rintro (⟨listed, _⟩ | ⟨_, moved⟩)
    · exact listed
    · simpa using (mem_filter.mp moved).2
  · intro listed
    by_cases moved : id ∈ locallyReordered base draft remote
    · exact Or.inr ⟨(mem_orderTouchedIds (mem_of_mem_filter moved)).2, moved⟩
    · exact Or.inl ⟨listed, moved⟩

theorem nodup_reorderedIds : (reorderedIds base draft remote).Nodup :=
  nodup_placeIdsAtDraftAnchors _ distinctRemote.nodup distinctDraft.nodup distinctRemote.named

theorem named_reorderedIds : "" ∉ reorderedIds base draft remote := by
  rw [mem_reorderedIds distinctDraft distinctRemote]
  exact distinctRemote.named

theorem mem_mergeReadingOrder (id : String) :
    id ∈ (mergeReadingOrder base draft remote).ids ↔ id ∈ draft.ids ∨ id ∈ remote.ids := by
  rw [mergeReadingOrder_ids, mem_placeIdsAtDraftAnchors _
    (nodup_reorderedIds distinctDraft distinctRemote)
    distinctDraft.nodup (named_reorderedIds distinctDraft distinctRemote)]
  simp only [localOnlyIds, mem_eraseDups, mem_filter, decide_eq_true_eq,
    mem_reorderedIds distinctDraft distinctRemote]
  tauto

theorem nodup_mergeReadingOrder : (mergeReadingOrder base draft remote).ids.Nodup := by
  rw [mergeReadingOrder_ids]
  exact nodup_placeIdsAtDraftAnchors _ (nodup_reorderedIds distinctDraft distinctRemote)
    distinctDraft.nodup (named_reorderedIds distinctDraft distinctRemote)

end

/-! ## The merged annotations -/

/-- What the merge puts at an identifier. -/
def mergedValue (base draft remote : AnnotationPage) (id : String) : Option Json :=
  if sameOptional (base.at? id) (draft.at? id) then remote.at? id else draft.at? id

section
variable {base draft remote : AnnotationPage} (distinctBase : DistinctIds base)
  (distinctDraft : DistinctIds draft) (distinctRemote : DistinctIds remote)
include distinctBase distinctDraft distinctRemote

theorem mergeItem_mergedItems (order : OrderMerge) (prior : List String) (state : MergeState)
    (id : String) :
    (mergeItem (itemsById (some base)) (itemsById (some draft)) (itemsById (some remote)) order prior
      state id).mergedItems =
      match mergedValue base draft remote id with
      | some value => Assoc.set state.mergedItems id value
      | none => state.mergedItems := by
  simp only [mergeItem, distinctBase.get_itemsById, distinctDraft.get_itemsById,
    distinctRemote.get_itemsById, mergedValue]
  cases unchanged : sameOptional (base.at? id) (draft.at? id) with
  | true =>
    cases remote.at? id <;> simp <;> split <;> rfl
  | false =>
    cases draft.at? id <;> simp <;> split <;> rfl

theorem foldl_mergeItem (order : OrderMerge) (prior ids : List String) (state : MergeState)
    (distinct : ids.Nodup) (fresh : ∀ id ∈ ids, id ∉ Assoc.keys state.mergedItems) :
    (ids.foldl (mergeItem (itemsById (some base)) (itemsById (some draft)) (itemsById (some remote))
      order prior) state).mergedItems =
      state.mergedItems ++ ids.filterMap fun id => (mergedValue base draft remote id).map (id, ·) := by
  induction ids generalizing state with
  | nil => simp
  | cons id rest ih =>
    obtain ⟨absent, distinct⟩ := nodup_cons.mp distinct
    have step := mergeItem_mergedItems distinctBase distinctDraft distinctRemote order prior state id
    have unset := fresh id mem_cons_self
    rw [foldl_cons, ih _ distinct]
    · cases value : mergedValue base draft remote id with
      | none => simp [step, value]
      | some item => simp [step, value, Assoc.set_of_not_mem unset]
    · intro other member
      have apart : other ≠ id := fun same => absent (same ▸ member)
      have old := fresh other (mem_cons_of_mem _ member)
      rw [step]
      cases mergedValue base draft remote id with
      | none => exact old
      | some item => simpa [Assoc.mem_keys_set, apart] using old

theorem mergeDraftOntoRemote_items (prior : List String) :
    (mergeDraftOntoRemote base draft remote prior).page.items =
      (mergeReadingOrder base draft remote).ids.filterMap (mergedValue base draft remote) := by
  simp only [mergeDraftOntoRemote]
  rw [foldl_mergeItem distinctBase distinctDraft distinctRemote _ _ _ _
    (nodup_mergeReadingOrder distinctDraft distinctRemote) (by simp [Assoc.keys])]
  simp [Assoc.values, map_filterMap, Function.comp_def]

omit distinctBase distinctDraft distinctRemote in
theorem mergedValue_id {id : String} {item : Json}
    (found : mergedValue base draft remote id = some item) : annotationId item = id := by
  unfold mergedValue at found
  split at found <;> exact AnnotationPage.at?_id found

theorem mergeDraftOntoRemote_ids (prior : List String) :
    (mergeDraftOntoRemote base draft remote prior).page.ids =
      (mergeReadingOrder base draft remote).ids.filter fun id =>
        (mergedValue base draft remote id).isSome := by
  rw [AnnotationPage.ids, mergeDraftOntoRemote_items distinctBase distinctDraft distinctRemote]
  induction (mergeReadingOrder base draft remote).ids with
  | nil => rfl
  | cons id rest ih =>
    cases value : mergedValue base draft remote id with
    | none => simp [value, ih]
    | some item => simp [value, ih, mergedValue_id value]

theorem mergeDraftOntoRemote_at (prior : List String) (id : String) :
    (mergeDraftOntoRemote base draft remote prior).page.at? id = mergedValue base draft remote id := by
  have listed : id ∈ (mergeReadingOrder base draft remote).ids ↔ id ∈ draft.ids ∨ id ∈ remote.ids :=
    mem_mergeReadingOrder distinctDraft distinctRemote id
  have found : ∀ ids : List String, (ids.filterMap (mergedValue base draft remote)).find?
      (fun item => annotationId item = id) = if id ∈ ids then mergedValue base draft remote id
        else none := by
    intro ids
    induction ids with
    | nil => rfl
    | cons other rest ih =>
      cases value : mergedValue base draft remote other with
      | none =>
        by_cases same : id = other
        · subst same; simp [value, ih]
        · simp [value, ih, same]
      | some item =>
        have name := mergedValue_id value
        by_cases same : id = other
        · subst same; simp [value, name]
        · simp [value, name, ih, same, Ne.symm same]
  rw [AnnotationPage.at?, mergeDraftOntoRemote_items distinctBase distinctDraft distinctRemote, found]
  by_cases member : id ∈ draft.ids ∨ id ∈ remote.ids
  · rw [if_pos (listed.mpr member)]
  · rw [if_neg (fun inside => member (listed.mp inside))]
    rw [not_or] at member
    simp [mergedValue, AnnotationPage.at?_eq_none member.1, AnnotationPage.at?_eq_none member.2]

theorem mergeDraftOntoRemote_threeWay (prior : List String) :
    ThreeWay base draft remote (mergeDraftOntoRemote base draft remote prior).page where
  nodup := by
    rw [mergeDraftOntoRemote_ids distinctBase distinctDraft distinctRemote]
    exact (nodup_mergeReadingOrder distinctDraft distinctRemote).filter _
  origin := by
    intro id member
    rw [mergeDraftOntoRemote_ids distinctBase distinctDraft distinctRemote] at member
    exact (mem_mergeReadingOrder distinctDraft distinctRemote id).mp (mem_of_mem_filter member)
  changed := by
    intro id apart
    simp [mergeDraftOntoRemote_at distinctBase distinctDraft distinctRemote, mergedValue, apart]
  untouched := by
    intro id same
    simp [mergeDraftOntoRemote_at distinctBase distinctDraft distinctRemote, mergedValue, same]

end

/-! ## The session operations that merge -/

/-- Two page resources are told apart only when both have an identifier. -/
def OtherResource (left right : String) : Prop := left ≠ "" ∧ right ≠ "" ∧ left ≠ right

instance (left right : String) : Decidable (OtherResource left right) :=
  inferInstanceAs (Decidable (_ ∧ _ ∧ _))

def currentPageId (base draft : AnnotationPage) : String :=
  if pageId (some base) = "" then pageId (some draft) else pageId (some base)

def SameAnnotations (left right : AnnotationPage) : Prop :=
  ∀ id, left.at? id = right.at? id ∨ sameOptional (left.at? id) (right.at? id) = true

/-- A response that the session does not take: for another page, older than the
session, or for a revision the session has left. -/
def StaleSave (session : EditorSession) (submitted saved : AnnotationPage)
    (revision submittedRevision : String) : Prop :=
  OtherResource (pageId (some submitted)) (pageId (some saved)) ∨
    revisionIsOlder revision session.revision = true ∨
    (submittedRevision ≠ "" ∧ session.revision ≠ submittedRevision)

section
variable {session : EditorSession} {base draft remote : AnnotationPage}

section
variable (revision : Option String) (isBase : session.basePage = some base)
  (isDraft : session.draftPage = some draft)
include revision isBase isDraft

theorem rebaseSession_merge (samePage : ¬ OtherResource (currentPageId base draft)
      (pageId (some remote)))
    (current : revisionIsOlder (revision.getD session.revision) session.revision = false) :
    (rebaseSession session (some remote) revision).draftPage =
      some (mergeDraftOntoRemote base draft remote session.pendingRemoteIds).page := by
  unfold OtherResource currentPageId at samePage
  simp [rebaseSession, isBase, isDraft, samePage, current]

theorem rebaseSession_older (samePage : ¬ OtherResource (currentPageId base draft)
      (pageId (some remote)))
    (older : revisionIsOlder (revision.getD session.revision) session.revision = true) :
    rebaseSession session (some remote) revision = session := by
  unfold OtherResource currentPageId at samePage
  simp [rebaseSession, isBase, isDraft, samePage, older]

theorem rebaseSession_other (other : OtherResource (currentPageId base draft) (pageId (some remote))) :
    rebaseSession session (some remote) revision =
      createEditorSession (some remote) (revision.getD session.revision) := by
  unfold OtherResource currentPageId at other
  simp [rebaseSession, isBase, isDraft, other]

end

theorem acceptSavedSession_stale (revision : String) (submittedRevision : Option String)
    (stale : StaleSave session base remote revision (submittedRevision.getD session.revision)) :
    (acceptSavedSession session (some remote) revision (some (some base))
      submittedRevision).draftPage =
      session.draftPage := by
  unfold StaleSave OtherResource at stale
  simp only [acceptSavedSession, Option.some_or, Option.getD_some]
  split_ifs <;> simp_all

theorem acceptSavedSession_merge (revision : String) (submittedRevision : Option String)
    (isDraft : session.draftPage = some draft)
    (fresh : ¬ StaleSave session base remote revision (submittedRevision.getD session.revision)) :
    (acceptSavedSession session (some remote) revision (some (some base))
      submittedRevision).draftPage =
      some (if pagesEqual (some draft) (some base) then remote
        else (mergeDraftOntoRemote base draft remote session.pendingRemoteIds).page) := by
  unfold StaleSave OtherResource at fresh
  simp only [not_or, Bool.not_eq_true] at fresh
  obtain ⟨samePage, current, submitted⟩ := fresh
  simp only [acceptSavedSession, Option.some_or, Option.getD_some, samePage, current,
    submitted, isDraft, if_false, Bool.false_eq_true]
  split <;> rfl

theorem editSession_draftPage (next : AnnotationPage) (isDraft : session.draftPage = some draft) :
    (editSession session (some next)).draftPage =
      some (if patchIsEmpty (createPagePatch (some draft) (some next)) then draft else next) := by
  simp only [editSession, isDraft]
  split <;> simp_all

/-- A transform result is not taken on another page than the one it was computed from. -/
def StaleTransform (draft submitted transformed : AnnotationPage) : Prop :=
  pageId (some submitted) ≠ "" ∧
    (pageId (some transformed) ≠ pageId (some submitted) ∨
      pageId (some draft) ≠ pageId (some submitted))

theorem applyPageTransformSession_stale (affectedIds : List String) (atomic : Bool)
    (isDraft : session.draftPage = some draft) (stale : StaleTransform draft base remote) :
    applyPageTransformSession session (some base) (some remote) affectedIds atomic = session := by
  unfold StaleTransform at stale
  simp only [applyPageTransformSession, isDraft]
  rw [if_pos stale]

theorem applyPageTransformSession_equal (affectedIds : List String) (atomic : Bool)
    (isDraft : session.draftPage = some draft) (fresh : ¬ StaleTransform draft base remote)
    (equal : pagesEqual (some draft) (some base) = true) :
    applyPageTransformSession session (some base) (some remote) affectedIds atomic =
      editSession session (some remote) := by
  unfold StaleTransform at fresh
  simp only [applyPageTransformSession, isDraft]
  rw [if_neg fresh, if_pos equal]

theorem applyPageTransformSession_merge (affectedIds : List String)
    (isDraft : session.draftPage = some draft) (fresh : ¬ StaleTransform draft base remote)
    (apart : pagesEqual (some draft) (some base) = false) :
    ∃ page, (applyPageTransformSession session (some base) (some remote) affectedIds
      false).draftPage = some page ∧
      page.items = (mergeDraftOntoRemote base draft remote session.pendingRemoteIds).page.items := by
  unfold StaleTransform at fresh
  simp only [applyPageTransformSession, isDraft]
  rw [if_neg fresh, if_neg (by simp [apart]), if_neg (by simp)]
  exact ⟨_, rfl, rfl⟩

theorem ThreeWay.of_items {page result : AnnotationPage} (merged : ThreeWay base draft remote result)
    (same : page.items = result.items) : ThreeWay base draft remote page := by
  have ids : page.ids = result.ids := by simp [AnnotationPage.ids, same]
  have values : ∀ id, page.at? id = result.at? id := by simp [AnnotationPage.at?, same]
  refine ⟨?_, ?_, ?_, ?_⟩
  · rw [ids]; exact merged.nodup
  · rw [ids]; exact merged.origin
  · intro id apart; rw [values]; exact merged.changed id apart
  · intro id unchanged; rw [values]; exact merged.untouched id unchanged

end

/-- Annotations merge three-way, and every operation that carries a draft onto
another page does so by that merge. An operation that does not merge either keeps
the draft (a stale response), moves to another page, or found nothing changed
since the base. -/
theorem annotations_merge_threeWay (base draft remote : AnnotationPage)
    (distinctBase : DistinctIds base) (distinctDraft : DistinctIds draft)
    (distinctRemote : DistinctIds remote) :
    (∀ prior, ThreeWay base draft remote (mergeDraftOntoRemote base draft remote prior).page) ∧
    (∀ (session : EditorSession) (revision : Option String),
      session.basePage = some base → session.draftPage = some draft →
      (OtherResource (currentPageId base draft) (pageId (some remote)) ∧
        rebaseSession session (some remote) revision =
          createEditorSession (some remote) (revision.getD session.revision)) ∨
      (revisionIsOlder (revision.getD session.revision) session.revision = true ∧
        rebaseSession session (some remote) revision = session) ∨
      ∃ page, (rebaseSession session (some remote) revision).draftPage = some page ∧
        ThreeWay base draft remote page) ∧
    (∀ (session : EditorSession) (revision : String) (submittedRevision : Option String),
      session.draftPage = some draft →
      ∃ page, (acceptSavedSession session (some remote) revision (some (some base))
          submittedRevision).draftPage = some page ∧
        ((StaleSave session base remote revision (submittedRevision.getD session.revision) ∧
          page = draft) ∨
          (SameAnnotations draft base ∧ page = remote) ∨ ThreeWay base draft remote page)) ∧
    (∀ (session : EditorSession) (affectedIds : List String), session.draftPage = some draft →
      ∃ page, (applyPageTransformSession session (some base) (some remote) affectedIds
          false).draftPage = some page ∧
        ((StaleTransform draft base remote ∧ page = draft) ∨
          (SameAnnotations draft base ∧
            (page = remote ∨ page = draft ∧ SameAnnotations draft remote)) ∨
          ThreeWay base draft remote page)) := by
  have threeWay := mergeDraftOntoRemote_threeWay distinctBase distinctDraft distinctRemote
  refine ⟨threeWay, ?_, ?_, ?_⟩
  · intro session revision isBase isDraft
    by_cases other : OtherResource (currentPageId base draft) (pageId (some remote))
    · exact Or.inl ⟨other, rebaseSession_other revision isBase isDraft other⟩
    · right
      cases older : revisionIsOlder (revision.getD session.revision) session.revision with
      | true => exact Or.inl ⟨rfl, rebaseSession_older revision isBase isDraft other older⟩
      | false => exact Or.inr ⟨_, rebaseSession_merge revision isBase isDraft other older, threeWay _⟩
  · intro session revision submittedRevision isDraft
    by_cases stale : StaleSave session base remote revision (submittedRevision.getD session.revision)
    · exact ⟨draft, (acceptSavedSession_stale revision submittedRevision stale).trans isDraft,
        Or.inl ⟨stale, rfl⟩⟩
    · refine ⟨_, acceptSavedSession_merge revision submittedRevision isDraft stale, Or.inr ?_⟩
      cases equal : pagesEqual (some draft) (some base) with
      | true => exact Or.inl ⟨pagesEqual_at distinctDraft distinctBase equal, rfl⟩
      | false => exact Or.inr (threeWay _)
  · intro session affectedIds isDraft
    by_cases stale : StaleTransform draft base remote
    · rw [applyPageTransformSession_stale affectedIds false isDraft stale]
      exact ⟨draft, isDraft, Or.inl ⟨stale, rfl⟩⟩
    · cases equal : pagesEqual (some draft) (some base) with
      | true =>
        rw [applyPageTransformSession_equal affectedIds false isDraft stale equal]
        refine ⟨_, editSession_draftPage remote isDraft,
          Or.inr (Or.inl ⟨pagesEqual_at distinctDraft distinctBase equal, ?_⟩)⟩
        cases empty : patchIsEmpty (createPagePatch (some draft) (some remote)) with
        | true => exact Or.inr ⟨rfl,
          pagesEqual_at distinctDraft distinctRemote (by simp [pagesEqual, empty])⟩
        | false => exact Or.inl rfl
      | false =>
        obtain ⟨page, found, items⟩ := applyPageTransformSession_merge affectedIds isDraft stale equal
        exact ⟨page, found, Or.inr (Or.inr ((threeWay _).of_items items))⟩

def textAnnotation (id text : String) : Json :=
  .obj [("id", .str id), ("body", .arr [.obj [("type", .str "TextualBody"), ("value", .str text)]])]

def textPage (items : List (String × String)) : AnnotationPage :=
  { metadata := [("id", .str "page"), ("type", .str "AnnotationPage")]
    items := items.map fun item => textAnnotation item.1 item.2 }

/-- A local edit of `a` and deletion of `b` meet a remote edit of `a` and `c` and a new `d`. -/
theorem annotations_merge_threeWay_edit_and_delete :
    let base := textPage [("a", "one"), ("b", "two"), ("c", "three")]
    let draft := textPage [("a", "local"), ("c", "three")]
    let remote := textPage [("a", "remote"), ("b", "two"), ("c", "changed"), ("d", "new")]
    ThreeWay base draft remote (mergeDraftOntoRemote base draft remote []).page ∧
      (mergeDraftOntoRemote base draft remote []).page.items =
        (textPage [("a", "local"), ("c", "changed"), ("d", "new")]).items :=
  ⟨(annotations_merge_threeWay _ _ _ ⟨by decide, by decide⟩ ⟨by decide, by decide⟩
    ⟨by decide, by decide⟩).1 [], by decide +kernel⟩

/-- A poll that shows another page's resource drops the local edit of `a`, and a poll with an older
revision does not bring the remote edit of `b`. -/
theorem rebaseSession_outside_merge :
    let base := textPage [("a", "one"), ("b", "two")]
    let draft := textPage [("a", "local"), ("b", "two")]
    let remote := textPage [("a", "one"), ("b", "changed")]
    let session := { createEditorSession (some base) "7" with dirty := true, draftPage := some draft }
    let other := { remote with metadata := [("id", .str "other"), ("type", .str "AnnotationPage")] }
    (rebaseSession session (some other) (some "8")).draftPage = some other ∧
      ¬ ThreeWay base draft other other ∧
      (rebaseSession session (some remote) (some "6")).draftPage = some draft ∧
      ¬ ThreeWay base draft remote draft := by
  refine ⟨by decide +kernel, fun merged => ?_, by decide +kernel, fun merged => ?_⟩
  · exact absurd (merged.changed "a" (by decide +kernel)) (by decide +kernel)
  · exact absurd (merged.untouched "b" (by decide +kernel)) (by decide +kernel)

/-! ## The merged order -/

/-- Two lists put the identifiers they share in one order. -/
def SameOrder (left right : List String) : Prop := left.filter (· ∈ right) = right.filter (· ∈ left)

instance (left right : List String) : Decidable (SameOrder left right) :=
  inferInstanceAs (Decidable (_ = _))

theorem SameOrder.filter {left right : List String} (same : SameOrder left right) (p : String → Bool) :
    SameOrder (left.filter p) right := by
  unfold SameOrder at same ⊢
  have kept := congrArg (List.filter p) same
  simp only [filter_filter] at kept ⊢
  calc left.filter (fun id => decide (id ∈ right) && p id)
      = left.filter (fun id => p id && decide (id ∈ right)) :=
        filter_congr fun id _ => Bool.and_comm _ _
    _ = right.filter (fun id => p id && decide (id ∈ left)) := kept
    _ = right.filter (fun id => decide (id ∈ left.filter p)) := by
        apply filter_congr
        intro id _
        simp [mem_filter, Bool.and_comm]

/-- The remote identifiers whose neighbours the user did not change: those the
order merge leaves where the remote page has them. -/
def unmovedIds (base draft remote : AnnotationPage) : List String :=
  remote.ids.filter (· ∉ orderTouchedIds base.ids draft.ids)

section
variable {base draft remote : AnnotationPage} (distinctDraft : DistinctIds draft)
  (distinctRemote : DistinctIds remote)

theorem unmovedIds_eq : unmovedIds base draft remote =
      remote.ids.filter (· ∉ locallyReordered base draft remote) := by
  apply filter_congr
  intro id listed
  simp [locallyReordered, listed]

theorem reorderedIds_not_localOnly :
    (reorderedIds base draft remote).filter (· ∉ localOnlyIds base draft remote) =
      reorderedIds base draft remote := by
  apply filter_eq_self.mpr
  intro id listed
  simp [localOnlyIds, listed]

include distinctDraft distinctRemote

theorem mergeReadingOrder_reordered :
    (mergeReadingOrder base draft remote).ids.filter (· ∈ reorderedIds base draft remote) =
      reorderedIds base draft remote := by
  have kept := placeIdsAtDraftAnchors_retained (localOnlyIds base draft remote)
    (@nodup_reorderedIds base draft remote distinctDraft distinctRemote) distinctDraft.nodup
    (named_reorderedIds distinctDraft distinctRemote)
  rw [reorderedIds_not_localOnly] at kept
  exact kept

theorem mergeReadingOrder_unmoved :
    (mergeReadingOrder base draft remote).ids.filter (· ∈ unmovedIds base draft remote) =
      unmovedIds base draft remote := by
  have first := placeIdsAtDraftAnchors_retained (locallyReordered base draft remote)
    distinctRemote.nodup distinctDraft.nodup distinctRemote.named
  rw [← unmovedIds_eq] at first
  have second := congrArg (List.filter (· ∈ unmovedIds base draft remote))
    (@mergeReadingOrder_reordered base draft remote distinctDraft distinctRemote)
  have inside : ∀ id, id ∈ unmovedIds base draft remote → id ∈ reorderedIds base draft remote := by
    intro id member
    rw [mem_reorderedIds distinctDraft distinctRemote]
    exact mem_of_mem_filter member
  rw [filter_filter] at second
  refine Eq.trans (filter_congr ?_) (second.trans first)
  intro id _
  by_cases member : id ∈ unmovedIds base draft remote
  · simp [member, inside id member]
  · simp [member]

/-- The order merge follows the draft exactly when what it leaves in place does. -/
theorem mergeReadingOrder_draft_order (ordered : SameOrder (unmovedIds base draft remote) draft.ids) :
    SameOrder (mergeReadingOrder base draft remote).ids draft.ids := by
  rw [unmovedIds_eq] at ordered
  have first : SameOrder (reorderedIds base draft remote) draft.ids :=
    placeIdsAtDraftAnchors_draft_order _ distinctRemote.nodup distinctDraft.nodup
      distinctRemote.named ordered
  rw [mergeReadingOrder_ids]
  apply placeIdsAtDraftAnchors_draft_order _ (nodup_reorderedIds distinctDraft distinctRemote)
    distinctDraft.nodup (named_reorderedIds distinctDraft distinctRemote)
  rw [reorderedIds_not_localOnly]
  exact first

variable (distinctBase : DistinctIds base)
include distinctBase

theorem mem_mergedPage_ids (prior : List String) {id : String} (inDraft : id ∈ draft.ids)
    (inRemote : id ∈ remote.ids) : id ∈ (mergeDraftOntoRemote base draft remote prior).page.ids := by
  rw [mergeDraftOntoRemote_ids distinctBase distinctDraft distinctRemote, mem_filter]
  refine ⟨(mem_mergeReadingOrder distinctDraft distinctRemote id).mpr (Or.inl inDraft), ?_⟩
  unfold mergedValue
  split
  · exact (AnnotationPage.at?_isSome_iff remote id).mpr inRemote
  · exact (AnnotationPage.at?_isSome_iff draft id).mpr inDraft

theorem mergeDraftOntoRemote_draft_order_iff (prior : List String) :
    SameOrder (mergeDraftOntoRemote base draft remote prior).page.ids draft.ids ↔
      SameOrder (unmovedIds base draft remote) draft.ids := by
  have ids := mergeDraftOntoRemote_ids distinctBase distinctDraft distinctRemote prior
  constructor
  · intro ordered
    set merged := (mergeDraftOntoRemote base draft remote prior).page.ids
    have present : ∀ id ∈ unmovedIds base draft remote, id ∈ draft.ids → id ∈ merged :=
      fun id unmoved inDraft => mem_mergedPage_ids distinctDraft distinctRemote
        distinctBase prior inDraft
        (mem_of_mem_filter unmoved)
    -- Filtering the merged order by the unmoved identifiers gives their remote order.
    have kept : (merged.filter (· ∈ draft.ids)).filter (· ∈ unmovedIds base draft remote) =
        (unmovedIds base draft remote).filter (· ∈ draft.ids) := by
      rw [← mergeReadingOrder_unmoved distinctDraft distinctRemote, ids]
      simp only [filter_filter]
      apply filter_congr
      intro id listed
      by_cases unmoved : id ∈ unmovedIds base draft remote
      · by_cases inDraft : id ∈ draft.ids
        · have found := present id unmoved inDraft
          rw [ids, mem_filter] at found
          simp [unmoved, inDraft, listed, found.2]
        · simp [inDraft]
      · simp [unmoved]
    have restricted := congrArg (List.filter (· ∈ unmovedIds base draft remote)) ordered
    rw [kept] at restricted
    refine restricted.trans ?_
    rw [filter_filter]
    apply filter_congr
    intro id inDraft
    by_cases unmoved : id ∈ unmovedIds base draft remote
    · simp [unmoved, present id unmoved inDraft]
    · simp [unmoved]
  · intro ordered
    rw [ids]
    exact (mergeReadingOrder_draft_order distinctDraft distinctRemote ordered).filter _

end

/-- A rebase keeps the draft's order exactly when the identifiers it does not
recognize as moved already stand in the draft as they do on the remote page. A
block that moves as a whole changes neighbours at its ends only, so its interior
stays where the remote page has it. -/
theorem rebaseSession_draft_order_iff (session : EditorSession) (base draft remote : AnnotationPage)
    (revision : Option String) (isBase : session.basePage = some base)
    (isDraft : session.draftPage = some draft) (distinctBase : DistinctIds base)
    (distinctDraft : DistinctIds draft) (distinctRemote : DistinctIds remote) :
    (∃ rebased, (rebaseSession session (some remote) revision).draftPage = some rebased ∧
      SameOrder rebased.ids draft.ids) ↔
    if OtherResource (currentPageId base draft) (pageId (some remote)) then
      SameOrder remote.ids draft.ids
    else revisionIsOlder (revision.getD session.revision) session.revision = true ∨
      SameOrder (unmovedIds base draft remote) draft.ids := by
  by_cases other : OtherResource (currentPageId base draft) (pageId (some remote))
  · rw [if_pos other, rebaseSession_other revision isBase isDraft other]
    simp [createEditorSession]
  · rw [if_neg other]
    cases older : revisionIsOlder (revision.getD session.revision) session.revision with
    | true =>
      rw [rebaseSession_older revision isBase isDraft other older, isDraft]
      simp [SameOrder]
    | false =>
      rw [rebaseSession_merge revision isBase isDraft other older]
      simp [mergeDraftOntoRemote_draft_order_iff distinctDraft distinctRemote distinctBase]

/-- The session of a user who moved the last three of six lines to the front. -/
def blockMoveSession : EditorSession :=
  { createEditorSession (some (textPage [("1", "a"), ("2", "b"), ("3", "c"), ("4", "d"),
      ("5", "e"), ("6", "f")]))
      "7" with
    dirty := true
    draftPage :=
      some (textPage [("4", "d"), ("5", "e"), ("6", "f"), ("1", "a"), ("2", "b"), ("3", "c")]) }

theorem rebaseSession_scrambles_block_move :
    ((rebaseSession blockMoveSession blockMoveSession.basePage (some "7")).draftPage.map (·.ids)) =
      some ["6", "1", "2", "4", "5", "3"] ∧
    blockMoveSession.draftPage.map (·.ids) = some ["4", "5", "6", "1", "2", "3"] := by
  decide +kernel

theorem rebaseSession_keeps_swap :
    let base := textPage [("1", "a"), ("2", "b"), ("3", "c")]
    let draft := textPage [("2", "b"), ("1", "a"), ("3", "c")]
    let session := { createEditorSession (some base) "7" with dirty := true, draftPage := some draft }
    ∃ rebased, (rebaseSession session (some base) (some "7")).draftPage = some rebased ∧
      SameOrder rebased.ids draft.ids :=
  (rebaseSession_draft_order_iff _ _ _ _ _ rfl rfl ⟨by decide, by decide⟩ ⟨by decide, by decide⟩
    ⟨by decide, by decide⟩).mpr (by decide +kernel)

end Scribe.Editor
