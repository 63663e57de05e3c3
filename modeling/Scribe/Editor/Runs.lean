import Scribe.Editor.History
import Scribe.Editor.Outcomes

/-! Runs of an editor session and their undo history.

Every action has one of the effects on the history, so a session that a run reaches lies
on a trail of pages. With a complete history, undoing everything leads back to the base
page, and redoing what was undone leads to the draft again.
-/

set_option autoImplicit false

namespace Scribe.Editor

open List

/-! ## Actions -/

def SessionAction.pages : SessionAction → List AnnotationPage
  | .edit page | .rebase page _ | .reset page _ => page.toList
  | .saved page _ submittedPage _ => page.toList ++ submittedPage.join.toList
  | .transformResult submittedPage page _ _ => submittedPage.toList ++ page.toList
  | .undo | .redo | .loadStart | .remoteItem _ | .saveStart | .saveConflict _ | .saveError
    _ | .dismissError => []

def SessionAction.item? : SessionAction → Option Json
  | .remoteItem item => some item
  | _ => none

structure ProperAction (action : SessionAction) : Prop where
  pages : ∀ page ∈ action.pages, ProperPage page
  item : ∀ item ∈ action.item?, item.Proper

/-- The actions that start a new history: a load, rebase, remote annotation or save that is taken,
or a reset. -/
def rebuildsHistory (session : EditorSession) : SessionAction → Bool
  | .rebase page revision => match page, session.basePage, session.draftPage with
    | none, _, _ => false
    | some remote, some base, some draft =>
      OtherResource (currentPageId base draft) (pageId (some remote)) ||
        !revisionIsOlder (revision.getD session.revision) session.revision
    | _, _, _ => true
  | .remoteItem item => session.basePage.isSome && session.draftPage.isSome && annotationId item ≠ ""
  | .saved page revision submittedPage submittedRevision =>
    match responsePage session page submittedPage with
    | none => true
    | some saved =>
        !decide (StaleResponse session (submittedPage.getD session.draftPage) saved revision
        (submittedRevision.getD session.revision))
  | .reset _ _ => true
  | .edit _ | .undo | .redo | .loadStart | .saveStart | .saveConflict _ | .saveError _ | .dismissError
  | .transformResult _ _ _ _ => false

/-- The edits and operations that record an entry: those that change the draft. -/
def recordsHistory (session : EditorSession) (action : SessionAction) : Bool :=
  match action with
  | .edit _ | .transformResult _ _ _ _ => session.draftPage.isSome &&
    !patchIsEmpty (createPagePatch session.draftPage (editorSessionReducer session action).draftPage)
  | _ => false

def recordedSince (session : EditorSession) (action : SessionAction) (recorded : Nat) : Nat :=
  if rebuildsHistory session action then 0 else if recordsHistory session action then
      recorded + 1 else recorded

section Effects

variable {session : EditorSession} {recorded : Nat}

theorem patchIsEmpty_self {page : Option AnnotationPage}
    (proper : ∀ present ∈ page, ProperPage present) (some : page.isSome = true) :
    patchIsEmpty (createPagePatch page page) = true := by
  cases page with
  | none => cases some
  | some page =>
    have isProper := proper page rfl
    exact (patchIsEmpty_iff isProper.distinct isProper.distinct).mpr (SamePage.refl isProper)

theorem Keyed.page_proper {items : List (String × Json)} (keyed : Keyed items)
    (proper : ∀ id, ∀ item ∈ Assoc.get items id, item.Proper) {metadata : Object}
    (properMetadata : Json.Proper (.obj metadata)) : ProperPage ⟨metadata, Assoc.values items⟩ := by
  have all : Assoc.values items = arrange items [] := by simp [arrange]
  rw [all]
  refine ⟨keyed.arrange_distinct nodup_nil metadata, fun item member => ?_, properMetadata⟩
  obtain ⟨id, listed⟩ := mem_arrange member
  exact proper id item (Assoc.get_of_mem keyed.nodup listed)

theorem mergeDraftOntoRemote_proper {base draft remote : AnnotationPage} (proper : ProperPage base)
    (properDraft : ProperPage draft) (properRemote : ProperPage remote) (prior : List String) :
    ProperPage (mergeDraftOntoRemote base draft remote prior).page := by
  have merged :=
    mergeDraftOntoRemote_threeWay proper.distinct properDraft.distinct properRemote.distinct prior
  have named : "" ∉ (mergeDraftOntoRemote base draft remote prior).page.ids := by
    intro listed
    rcases merged.origin "" listed with inDraft | inRemote
    · exact properDraft.distinct.named inDraft
    · exact properRemote.distinct.named inRemote
  refine ⟨⟨merged.nodup, named⟩, fun item member => ?_, properRemote.metadata⟩
  rw [mergeDraftOntoRemote_items proper.distinct properDraft.distinct properRemote.distinct] at member
  obtain ⟨id, _, found⟩ := mem_filterMap.mp member
  unfold mergedValue at found
  split at found
  · exact properRemote.at?_proper item found
  · exact properDraft.at?_proper item found

theorem effect_of_same {action : SessionAction} (traced : Traced (session.view recorded))
    (kept : rebuildsHistory session action = false)
    (same : (editorSessionReducer session action).view recorded = session.view recorded) :
    Effect (session.view recorded)
      ((editorSessionReducer session action).view (recordedSince session action recorded)) := by
  have isDraft : (editorSessionReducer session action).draftPage = session.draftPage :=
    congrArg HistoryView.draft same
  have none : recordsHistory session action = false := by
    cases some : session.draftPage.isSome with
    | false => unfold recordsHistory; split <;> simp [some]
    | true =>
      have empty := patchIsEmpty_self traced.draft some
      unfold recordsHistory
      split
      · rw [isDraft]
        simp only [EditorSession.view] at empty
        rw [empty]
        simp
      · rw [isDraft]
        simp only [EditorSession.view] at empty
        rw [empty]
        simp
      · rfl
  rw [recordedSince, kept, none]
  simp only [Bool.false_eq_true, if_false]
  rw [same]
  exact .kept

theorem editSession_view (session : EditorSession) {next : AnnotationPage}
    (changed : patchIsEmpty (createPagePatch session.draftPage (some next)) = false) (recorded : Nat) :
    (editSession session (some next)).view recorded = ⟨session.basePage, some next,
      if session.draftPage.isSome then
        pushHistory session.undoStack (createPagePatch session.draftPage (some next))
      else session.undoStack, [], recorded⟩ := by
  simp only [editSession]
  rw [if_neg (by simp [changed])]
  rfl

theorem editSession_effect (traced : Traced (session.view recorded)) {action : SessionAction}
    {next : AnnotationPage} (proper : ProperPage next) (kept : rebuildsHistory session action = false)
    (isEdit : editorSessionReducer session action = editSession session (some next))
    (records : recordsHistory session action = (session.draftPage.isSome &&
      !patchIsEmpty (createPagePatch session.draftPage
        (editorSessionReducer session action).draftPage))) :
    Effect (session.view recorded)
      ((editorSessionReducer session action).view (recordedSince session action recorded)) := by
  by_cases empty : patchIsEmpty (createPagePatch session.draftPage (some next)) = true
  · refine effect_of_same traced kept ?_
    have same : editSession session (some next) = session := by
      simp only [editSession]
      rw [if_pos empty]
    rw [isEdit, same]
  · have changed : patchIsEmpty (createPagePatch session.draftPage (some next)) = false := by
      simpa using empty
    have view := editSession_view session changed
    have isDraft : (editSession session (some next)).draftPage = some next :=
      congrArg HistoryView.draft (view recorded)
    rw [isEdit, isDraft, changed, Bool.not_false, Bool.and_true] at records
    rw [recordedSince, kept, records, isEdit, view]
    cases found : session.draftPage with
    | none => exact .opened next proper found
    | some draft => exact .recorded draft next found proper

theorem applyRemoteAnnotation_effect (traced : Traced (session.view recorded)) {item : Json}
    (proper : item.Proper) : Effect (session.view recorded)
      ((editorSessionReducer session (.remoteItem item)).view
        (recordedSince session (.remoteItem item) recorded)) := by
  cases rebuilds : rebuildsHistory session (.remoteItem item) with
  | false =>
    refine effect_of_same traced rebuilds ?_
    simp only [rebuildsHistory] at rebuilds
    simp only [editorSessionReducer, applyRemoteAnnotation]
    split
    · rename_i base draft isBase isDraft
      simp [isBase, isDraft] at rebuilds
      rw [if_pos rebuilds]
    · rfl
  | true =>
    simp only [rebuildsHistory, Bool.and_eq_true, decide_eq_true_eq] at rebuilds
    obtain ⟨⟨someBase, someDraft⟩, named⟩ := rebuilds
    obtain ⟨base, isBase⟩ := Option.isSome_iff_exists.mp someBase
    obtain ⟨draft, isDraft⟩ := Option.isSome_iff_exists.mp someDraft
    have properBase := traced.base base isBase
    have properDraft := traced.draft draft isDraft
    -- Replacing one annotation in a proper page by a proper one.
    have setProper : ∀ page : AnnotationPage, ProperPage page →
        ProperPage { page with items := Assoc.values (Assoc.set (itemsById (some page))
            (annotationId item) item) } := by
      intro page isProper
      refine (isProper.distinct.keyed.set rfl named).page_proper (fun id found here => ?_)
        isProper.metadata
      rw [Assoc.get_set] at here
      split at here
      · cases here
        exact proper
      · rw [isProper.distinct.get_itemsById] at here
        exact isProper.at?_proper found here
    have keptProper : ProperPage { draft with items := Assoc.values (itemsById (some draft)) } := by
      refine properDraft.distinct.keyed.page_proper (fun id found here => ?_) properDraft.metadata
      rw [properDraft.distinct.get_itemsById] at here
      exact properDraft.at?_proper found here
    have rebuilds : rebuildsHistory session (.remoteItem item) = true := by
      simp [rebuildsHistory, isBase, isDraft, named]
    rw [recordedSince, if_pos rebuilds]
    simp only [editorSessionReducer, applyRemoteAnnotation, isBase, isDraft]
    rw [if_neg named]
    refine .rebuilt _ _ (setProper base properBase) ?_
    -- The draft takes the annotation over unless it was changed locally.
    by_cases changed : sameOptional (Assoc.get (itemsById (some base)) (annotationId item))
        (Assoc.get (itemsById (some draft)) (annotationId item)) = true
    · simp only [changed, Bool.not_true, Bool.false_eq_true, if_false]
      exact setProper draft properDraft
    · simp only [changed, Bool.not_false, if_true]
      exact keptProper

theorem createEditorSession_effect {page : Option AnnotationPage}
    (proper : ∀ present ∈ page, ProperPage present) (revision : String) :
    Effect (session.view recorded) ((createEditorSession page revision).view 0) :=
  .created page proper

theorem rebaseSession_effect (traced : Traced (session.view recorded)) {page : Option AnnotationPage}
    (proper : ∀ present ∈ page, ProperPage present) (revision : Option String) :
    Effect (session.view recorded) ((editorSessionReducer session (.rebase page revision)).view
      (recordedSince session (.rebase page revision) recorded)) := by
  rcases rebaseSession_cases session page revision with ⟨rfl, kept⟩ | ⟨remote, rfl, missing, created⟩ |
      ⟨remote, base, draft, rfl, isBase, isDraft, outcome⟩
  · exact effect_of_same traced rfl rfl
  · have rebuilds : rebuildsHistory session (.rebase (some remote) revision) = true := by
      rcases missing with noBase | noDraft
      · simp [rebuildsHistory, noBase]
      · cases isBase : session.basePage <;> simp [rebuildsHistory, noDraft, isBase]
    rw [recordedSince, if_pos rebuilds, editorSessionReducer, created]
    exact createEditorSession_effect proper _
  · rcases outcome with ⟨other, created⟩ | ⟨same, older, kept⟩ | ⟨same, current, rebased⟩
    · have rebuilds : rebuildsHistory session (.rebase (some remote) revision) = true := by
        simp [rebuildsHistory, isBase, isDraft, other]
      rw [recordedSince, if_pos rebuilds, editorSessionReducer, created]
      exact createEditorSession_effect proper _
    · refine effect_of_same traced (by simp [rebuildsHistory, isBase, isDraft, same, older]) ?_
      rw [editorSessionReducer, kept]
    · have rebuilds : rebuildsHistory session (.rebase (some remote) revision) = true := by
        simp [rebuildsHistory, isBase, isDraft, current]
      rw [recordedSince, if_pos rebuilds, editorSessionReducer, rebased]
      exact .rebuilt remote _ (proper remote rfl)
        (mergeDraftOntoRemote_proper (traced.base base isBase) (traced.draft draft isDraft)
          (proper remote rfl) _)

theorem settledSession_view (session : EditorSession) (recorded : Nat) :
    (settledSession session).view recorded = session.view recorded := by
  rw [settledSession]
  split <;> rfl

theorem acceptSavedSession_effect (traced : Traced (session.view recorded))
    {page : Option AnnotationPage} {revision : String}
    {submittedPage : Option (Option AnnotationPage)} {submittedRevision : Option String}
    (proper : ∀ present ∈ page, ProperPage present)
    (properSubmitted : ∀ present ∈ submittedPage.join, ProperPage present) :
    Effect (session.view recorded)
      ((editorSessionReducer session (.saved page revision submittedPage submittedRevision)).view
        (recordedSince session (.saved page revision submittedPage submittedRevision) recorded)) := by
  have isSubmitted : ∀ present ∈ submittedPage.getD session.draftPage, ProperPage present := by
    cases submittedPage with
    | none => exact traced.draft
    | some submitted => exact properSubmitted
  have isSaved : ∀ present ∈ responsePage session page submittedPage, ProperPage present := by
    intro present found
    rw [responsePage, Option.mem_def, Option.or_eq_some_iff, Option.or_eq_some_iff] at found
    rcases found with here | ⟨_, here | ⟨_, here⟩⟩
    · exact proper present here
    · exact isSubmitted present here
    · exact traced.draft present here
  rcases acceptSavedSession_cases session page revision submittedPage submittedRevision with
    ⟨none, created⟩ | ⟨saved, found, ⟨stale, settled⟩ | ⟨fresh, outcome⟩⟩
  · have rebuilds : rebuildsHistory session (.saved page revision submittedPage submittedRevision) =
        true := by
      simp only [rebuildsHistory, none]
    rw [recordedSince, if_pos rebuilds, editorSessionReducer, created]
    exact createEditorSession_effect (by simp) _
  · refine effect_of_same traced (by simp [rebuildsHistory, found, stale]) ?_
    rw [editorSessionReducer, settled]
    exact settledSession_view session recorded
  · have rebuilds : rebuildsHistory session (.saved page revision submittedPage submittedRevision) =
        true := by
      simp [rebuildsHistory, found, fresh]
    have properSaved := isSaved saved found
    rw [recordedSince, if_pos rebuilds, editorSessionReducer]
    rcases outcome with created | ⟨draft, submitted, isDraft, submittedIs, _, merged⟩
    · rw [created]
      exact createEditorSession_effect (by simpa using properSaved) _
    · rw [merged]
      exact .rebuilt saved _ properSaved
        (mergeDraftOntoRemote_proper (isSubmitted submitted submittedIs)
          (traced.draft draft isDraft) properSaved _)

theorem Operated.effect (traced : Traced (session.view recorded)) {action : SessionAction}
    {draft next : AnnotationPage}
    (operated : Operated session draft next (editorSessionReducer session action))
    (isDraft : session.draftPage = some draft) (proper : ProperPage next)
    (kept : rebuildsHistory session action = false)
    (records : recordsHistory session action = (session.draftPage.isSome &&
      !patchIsEmpty (createPagePatch session.draftPage
        (editorSessionReducer session action).draftPage))) :
    Effect (session.view recorded)
      ((editorSessionReducer session action).view (recordedSince session action recorded)) := by
  have view : ∀ recorded, (editorSessionReducer session action).view recorded =
      ⟨session.basePage, some next, if patchIsEmpty (createPagePatch (some draft) (some next)) then
        session.undoStack
        else pushHistory session.undoStack (createPagePatch (some draft) (some next)), [],
            recorded⟩ := by
    intro recorded
    rw [EditorSession.view, operated.base, operated.isDraft, operated.undo, operated.redo]
  rw [operated.isDraft, isDraft, Option.isSome_some, Bool.true_and] at records
  rw [recordedSince, kept, records, view]
  by_cases empty : patchIsEmpty (createPagePatch (some draft) (some next)) = true
  · have same := (patchIsEmpty_iff (traced.draft draft isDraft).distinct proper.distinct).mp empty
    simp only [empty, Bool.not_true, Bool.false_eq_true, if_false, if_true]
    exact .replaced draft next isDraft proper same
  · simp only [empty, Bool.not_false, Bool.false_eq_true, if_false, if_true]
    exact .recorded draft next isDraft proper

theorem operationPage_proper {submitted draft transformed : AnnotationPage}
    (proper : ProperPage submitted) (properDraft : ProperPage draft)
    (properTransformed : ProperPage transformed) :
    ProperPage (operationPage session submitted draft transformed) := by
  have merged :=
    mergeDraftOntoRemote_proper proper properDraft properTransformed session.pendingRemoteIds
  refine ⟨⟨merged.distinct.nodup, merged.distinct.named⟩, merged.items, ?_⟩
  simp only [operationPage]
  split
  · exact properDraft.metadata
  · exact properTransformed.metadata

theorem applyPageTransformSession_effect (traced : Traced (session.view recorded))
    {submittedPage page : Option AnnotationPage} {affectedIds : List String} {atomic : Bool}
    (proper : ∀ present ∈ page, ProperPage present)
    (properSubmitted : ∀ present ∈ submittedPage, ProperPage present) :
    Effect (session.view recorded)
      ((editorSessionReducer session (.transformResult submittedPage page affectedIds atomic)).view
        (recordedSince session (.transformResult submittedPage page affectedIds atomic)
          recorded)) := by
  rcases applyPageTransformSession_cases session submittedPage page affectedIds atomic with
    kept | ⟨draft, submitted, transformed, isDraft, rfl, rfl, edited | refused | operated⟩
  · refine effect_of_same traced rfl ?_
    rw [editorSessionReducer, kept]
  · exact editSession_effect traced (proper transformed rfl) rfl edited rfl
  · refine effect_of_same traced rfl ?_
    rw [editorSessionReducer, refused]
    rfl
  · exact operated.effect traced isDraft (operationPage_proper (properSubmitted submitted rfl)
      (traced.draft draft isDraft) (proper transformed rfl)) rfl rfl

/-- Every action has one of the effects. -/
theorem reducer_effect (traced : Traced (session.view recorded))
    {action : SessionAction} (proper : ProperAction action) : Effect (session.view recorded)
      ((editorSessionReducer session action).view (recordedSince session action recorded)) := by
  have pages := proper.pages
  -- Only undo and redo move an entry from one stack to the other.
  cases action with
  | edit page =>
    cases page with
    | none => exact effect_of_same traced rfl rfl
    | some next =>
      exact editSession_effect traced (pages next (by simp [SessionAction.pages])) rfl rfl rfl
  | undo =>
    simp only [editorSessionReducer, undoSession]
    split
    case h_1 draft patch isDraft isLast =>
      obtain ⟨undo, isUndo⟩ := getLast?_eq_some_iff.mp isLast
      rw [isUndo, dropLast_concat]
      exact .undone draft undo patch isDraft isUndo
    case h_2 => exact .kept
  | redo =>
    simp only [editorSessionReducer, redoSession]
    split
    case h_1 draft patch isDraft isLast =>
      obtain ⟨redo, isRedo⟩ := getLast?_eq_some_iff.mp isLast
      rw [isRedo, dropLast_concat]
      exact .redone draft redo patch isDraft isRedo
    case h_2 => exact .kept
  | loadStart => exact .kept
  | rebase page revision =>
    exact rebaseSession_effect traced (fun present found =>
      pages present (by simpa [SessionAction.pages] using found)) revision
  | remoteItem item => exact applyRemoteAnnotation_effect traced (proper.item item rfl)
  | saveStart =>
    refine effect_of_same traced rfl ?_
    simp only [editorSessionReducer]
    split <;> rfl
  | saveConflict error => exact .kept
  | saveError error => exact .kept
  | dismissError => exact .kept
  | saved page revision submittedPage submittedRevision =>
    exact acceptSavedSession_effect traced (fun present found => pages present (by
        simp [SessionAction.pages, Option.mem_def.mp found]))
      (fun present found => pages present (by simp [SessionAction.pages, Option.mem_def.mp found]))
  | transformResult submittedPage page affectedIds atomic =>
    exact applyPageTransformSession_effect traced (fun present found => pages present (by
        simp [SessionAction.pages, Option.mem_def.mp found]))
      (fun present found => pages present (by simp [SessionAction.pages, Option.mem_def.mp found]))
  | reset page revision =>
    exact createEditorSession_effect (fun present found =>
      pages present (by simpa [SessionAction.pages] using found)) revision

end Effects

/-! ## The dirty flag -/

/-- The flag says whether the draft differs from the base page. -/
def DirtyExact (session : EditorSession) : Prop :=
  session.dirty = !pagesEqual session.basePage session.draftPage

section Dirty

variable {session : EditorSession}

theorem dirtyExact_create (page : Option AnnotationPage) (revision : String) :
    DirtyExact (createEditorSession page revision) := by
  simp [DirtyExact, createEditorSession, pagesEqual]

theorem editSession_dirtyExact (isExact : DirtyExact session) (page : Option AnnotationPage) :
    DirtyExact (editSession session page) := by
  cases page with
  | none => exact isExact
  | some next =>
    simp only [editSession]
    split
    · exact isExact
    · rfl

theorem settledSession_dirtyExact (isExact : DirtyExact session) :
    DirtyExact (settledSession session) := by
  rw [settledSession]
  split <;> exact isExact

theorem reducer_dirtyExact (isExact : DirtyExact session) (action : SessionAction) :
    DirtyExact (editorSessionReducer session action) := by
  cases action with
  | edit page => exact editSession_dirtyExact isExact page
  | undo =>
    simp only [editorSessionReducer, undoSession]
    split
    · rfl
    · exact isExact
  | redo =>
    simp only [editorSessionReducer, redoSession]
    split
    · rfl
    · exact isExact
  | loadStart => exact isExact
  | rebase page revision =>
    rw [editorSessionReducer]
    rcases rebaseSession_cases session page revision with ⟨_, kept⟩ | ⟨_, _, _, created⟩ |
        ⟨_, _, _, _, _, _, ⟨_, created⟩ | ⟨_, _, kept⟩ | ⟨_, _, rebased⟩⟩
    · rwa [kept]
    · rw [created]
      exact dirtyExact_create _ _
    · rw [created]
      exact dirtyExact_create _ _
    · rwa [kept]
    · rw [rebased]
      rfl
  | remoteItem item =>
    simp only [editorSessionReducer, applyRemoteAnnotation]
    split
    · split
      · exact isExact
      · rfl
    · exact isExact
  | saveStart =>
    simp only [editorSessionReducer]
    split <;> exact isExact
  | saveConflict error => exact isExact
  | saveError error => exact isExact
  | dismissError => exact isExact
  -- A stale response touches neither page; every other one recomputes the flag.
  | saved page revision submittedPage submittedRevision =>
    rw [editorSessionReducer]
    rcases acceptSavedSession_cases session page revision submittedPage submittedRevision with
      ⟨_, created⟩ | ⟨_, _, ⟨_, settled⟩ | ⟨_, created | ⟨_, _, _, _, _, merged⟩⟩⟩
    · rw [created]
      exact dirtyExact_create _ _
    · rw [settled]
      exact settledSession_dirtyExact isExact
    · rw [created]
      exact dirtyExact_create _ _
    · rw [merged]
      rfl
  | transformResult submittedPage page affectedIds atomic =>
    rw [editorSessionReducer]
    rcases applyPageTransformSession_cases session submittedPage page affectedIds atomic with
      kept | ⟨_, _, _, _, _, _, edited | refused | operated⟩
    · rwa [kept]
    · rw [edited]
      exact editSession_dirtyExact isExact _
    · rw [refused]
      exact isExact
    · rw [DirtyExact, operated.dirty, operated.base, operated.isDraft]
  | reset page revision => exact dirtyExact_create page revision

end Dirty

/-! ## Runs -/

def stepRun (run : EditorSession × Nat) (action : SessionAction) : EditorSession × Nat :=
  (editorSessionReducer run.1 action, recordedSince run.1 action run.2)

def editorRun (page : Option AnnotationPage) (revision : String) (actions : List SessionAction) :
    EditorSession × Nat :=
  actions.foldl stepRun (createEditorSession page revision, 0)

theorem editorRun_traced {page : Option AnnotationPage}
    (proper : ∀ present ∈ page, ProperPage present) (revision : String)
    {actions : List SessionAction} (properActions : ∀ action ∈ actions, ProperAction action) :
    Traced ((editorRun page revision actions).1.view (editorRun page revision actions).2) ∧
      DirtyExact (editorRun page revision actions).1 := by
  suffices general : ∀ run : EditorSession × Nat, Traced (run.1.view run.2) → DirtyExact run.1 →
      Traced ((actions.foldl stepRun run).1.view (actions.foldl stepRun run).2) ∧
        DirtyExact (actions.foldl stepRun run).1 from
    general _ (Traced.created proper) (dirtyExact_create page revision)
  induction actions with
  | nil => exact fun run traced isExact => ⟨traced, isExact⟩
  | cons action rest ih =>
    intro run traced isExact
    have isProper := properActions action mem_cons_self
    exact ih (fun other member => properActions other (mem_cons_of_mem _ member)) (stepRun run action)
      ((reducer_effect traced isProper).traced traced) (reducer_dirtyExact isExact action)

/-! ## Undoing and redoing -/

section Undo

variable {session : EditorSession} {start page stop : AnnotationPage} {undone : List PagePatch}

theorem undoSession_concat {draft : AnnotationPage} {undo : List PagePatch} {patch : PagePatch}
    (isDraft : session.draftPage = some draft) (isUndo : session.undoStack = undo ++ [patch]) :
    (undoSession session).basePage = session.basePage ∧
    (undoSession session).draftPage = some (applyPagePatch draft patch .backward) ∧
    (undoSession session).undoStack = undo ∧
    (undoSession session).redoStack = session.redoStack ++ [patch] := by
  simp [undoSession, isDraft, isUndo, draftLifecycle]

theorem redoSession_concat {draft : AnnotationPage} {redo : List PagePatch} {patch : PagePatch}
    (isDraft : session.draftPage = some draft) (isRedo : session.redoStack = redo ++ [patch]) :
    (redoSession session).draftPage = some (applyPagePatch draft patch .forward) ∧
    (redoSession session).redoStack = redo := by
  simp [redoSession, isDraft, isRedo]

theorem undo_iterate (past : List PagePatch) (isDraft : session.draftPage = some page)
    (proper : ProperPage page) (properStart : ProperPage start)
    (trail : Trail start session.undoStack page) (isUndo : session.undoStack = past ++ undone) :
    ∃ earlier, ProperPage earlier ∧ (undoSession^[undone.length] session).basePage = session.basePage ∧
      (undoSession^[undone.length] session).draftPage = some earlier ∧
      (undoSession^[undone.length] session).undoStack = past ∧
      (undoSession^[undone.length] session).redoStack = session.redoStack ++ undone.reverse ∧
      Trail start past earlier ∧ Trail earlier undone page := by
  induction undone using List.reverseRecOn generalizing session page with
  | nil =>
    rw [append_nil] at isUndo
    exact ⟨page, proper, rfl, isDraft, isUndo, by simp, isUndo ▸ trail, SamePage.refl proper⟩
  | append_singleton undone patch ih =>
    rw [← append_assoc] at isUndo
    rw [isUndo] at trail
    obtain ⟨middle, properMiddle, upTo, leads⟩ := trail.of_concat properStart
    obtain ⟨properNext, isSame⟩ := leads.backward proper
    have isMiddle := isSame.symm properNext properMiddle
    obtain ⟨sameBase, isNext, nextUndo, nextRedo⟩ := undoSession_concat isDraft isUndo
    obtain ⟨earlier, properEarlier, keptBase, isEarlier, isPast, isRedo, before, onward⟩ :=
      ih isNext properNext (nextUndo ▸ upTo.congr_target isMiddle) nextUndo
    rw [length_append, length_singleton, Function.iterate_succ_apply]
    refine ⟨earlier, properEarlier, keptBase.trans sameBase, isEarlier, isPast, ?_, before, ?_⟩
    · rw [isRedo, nextRedo]
      simp
    · exact onward.concat properEarlier properNext proper (leads.congr isMiddle (SamePage.refl proper))

theorem redo_iterate (rest : List PagePatch) (isDraft : session.draftPage = some page)
    (proper : ProperPage page) (trail : Trail page undone stop)
    (isRedo : session.redoStack = rest ++ undone.reverse) :
    ∃ later, ProperPage later ∧ (redoSession^[undone.length] session).draftPage = some later ∧
      SamePage later stop := by
  induction undone generalizing session page with
  | nil => exact ⟨page, proper, isDraft, trail⟩
  | cons patch undone ih =>
    obtain ⟨middle, properMiddle, leads, onward⟩ := trail
    obtain ⟨properNext, isSame⟩ := leads.forward proper
    rw [reverse_cons, ← append_assoc] at isRedo
    obtain ⟨isNext, nextRedo⟩ := redoSession_concat isDraft isRedo
    rw [length_cons, Function.iterate_succ_apply]
    exact ih isNext properNext (onward.congr_source properMiddle properNext
      (isSame.symm properNext properMiddle)) nextRedo

end Undo

theorem iterate_undo_dirtyExact {session : EditorSession} (isExact : DirtyExact session)
    (count : Nat) : DirtyExact (undoSession^[count] session) := by
  induction count generalizing session with
  | zero => exact isExact
  | succ count ih => exact ih (reducer_dirtyExact isExact .undo)

/-- While no entry was dropped, undoing everything in a session with a base page gives the base
page, and redoing as many entries as were undone gives the draft again. -/
theorem undo_history_exact (page : Option AnnotationPage) (revision : String)
    (actions : List SessionAction) (proper : ∀ present ∈ page, ProperPage present)
    (properActions : ∀ action ∈ actions, ProperAction action)
    (few : (editorRun page revision actions).2 < historyLimit) :
    let session := (editorRun page revision actions).1
    (session.basePage.isSome = true →
      (undoSession^[session.undoStack.length] session).undoStack = [] ∧
      pagesEqual session.basePage (undoSession^[session.undoStack.length] session).draftPage = true ∧
      (undoSession^[session.undoStack.length] session).dirty = false) ∧
    ∀ count ≤ session.undoStack.length,
      pagesEqual session.draftPage (redoSession^[count] (undoSession^[count] session)).draftPage =
          true := by
  intro session
  obtain ⟨traced, isExact⟩ := editorRun_traced proper revision properActions
  change Traced (session.view _) at traced
  change DirtyExact session at isExact
  cases isDraft : session.draftPage with
  | none =>
    obtain ⟨noBase, noUndo, _⟩ := traced.empty isDraft
    change session.basePage = none at noBase
    change session.undoStack = [] at noUndo
    refine ⟨fun some => ?_, fun count within => ?_⟩
    · rw [noBase] at some
      cases some
    · rw [noUndo, length_nil, Nat.le_zero] at within
      rw [within, Function.iterate_zero_apply, Function.iterate_zero_apply, isDraft]
      rfl
  | some draft =>
    have properDraft := traced.draft draft isDraft
    obtain ⟨start, properStart, trail, fromBase⟩ := traced.past draft isDraft
    constructor
    · intro some
      obtain ⟨base, isBase⟩ := Option.isSome_iff_exists.mp some
      obtain ⟨earlier, properEarlier, sameBase, isEarlier, isEmpty, _, before, _⟩ :=
        undo_iterate [] isDraft properDraft properStart trail rfl
      have properBase := traced.base base isBase
      have equal : pagesEqual session.basePage
          (undoSession^[session.undoStack.length] session).draftPage = true := by
        rw [isBase, isEarlier, pagesEqual_iff properBase properEarlier]
        exact ((fromBase few base isBase).symm properStart properBase).trans before
      have flag := iterate_undo_dirtyExact isExact session.undoStack.length
      rw [DirtyExact, sameBase, equal] at flag
      exact ⟨isEmpty, equal, flag⟩
    -- Undone entries lie on the trail from an earlier page to the draft, and redoing follows it.
    · intro count within
      have split := (take_append_drop (session.undoStack.length - count) session.undoStack).symm
      have size : (session.undoStack.drop (session.undoStack.length - count)).length = count := by
        rw [length_drop]
        omega
      obtain ⟨earlier, properEarlier, _, isEarlier, _, isRedo, _, onward⟩ :=
        undo_iterate _ isDraft properDraft properStart trail split
      obtain ⟨later, properLater, isLater, same⟩ :=
        redo_iterate _ isEarlier properEarlier onward isRedo
      rw [size] at isLater
      rw [isLater, pagesEqual_iff properDraft properLater]
      exact same.symm properLater properDraft

theorem textPage_proper {items : List (String × String)} (nodup : (items.map Prod.fst).Nodup)
    (named : "" ∉ items.map Prod.fst) : ProperPage (textPage items) := by
  have ids : (textPage items).ids = items.map Prod.fst := by
    simp [textPage, AnnotationPage.ids, textAnnotation, annotationId, Json.field, Json.toObject,
      Assoc.get, Function.comp_def]
  refine ⟨⟨ids ▸ nodup, ids ▸ named⟩, fun item member => ?_, ?_⟩
  · obtain ⟨entry, _, rfl⟩ := mem_map.mp member
    simp [Json.Proper, textAnnotation, Json.ProperFields, Json.ProperEntries, Assoc.keys]
  · simp [textPage, Json.Proper, Json.ProperFields, Assoc.keys]

/-- Two edits, one of them with a new order, of which one was undone. -/
def editedTwice : List SessionAction :=
  [.edit (some (textPage [("a", "changed"), ("b", "two")])),
    .edit (some (textPage [("c", "new"), ("b", "two"), ("a", "changed")])), .undo]

theorem undo_history_exact_edited_twice :
    let session := (editorRun (some (textPage [("a", "one"), ("b", "two")])) "1" editedTwice).1
    session.undoStack.length = 1 ∧ session.redoStack.length = 1 ∧
    pagesEqual session.basePage (undoSession^[session.undoStack.length] session).draftPage = true := by
  have proper : ∀ present ∈ some (textPage [("a", "one"), ("b", "two")]), ProperPage present := by
    rintro present ⟨⟩
    exact textPage_proper (by decide) (by decide)
  have properActions : ∀ action ∈ editedTwice, ProperAction action := by
    intro action member
    simp only [editedTwice, mem_cons, not_mem_nil, or_false] at member
    rcases member with rfl | rfl | rfl
    · refine ⟨fun page listed => ?_, by simp [SessionAction.item?]⟩
      rw [mem_singleton.mp listed]
      exact textPage_proper (by decide) (by decide)
    · refine ⟨fun page listed => ?_, by simp [SessionAction.item?]⟩
      rw [mem_singleton.mp listed]
      exact textPage_proper (by decide) (by decide)
    · exact ⟨by simp [SessionAction.pages], by simp [SessionAction.item?]⟩
  exact ⟨by decide +kernel, by decide +kernel,
    ((undo_history_exact _ "1" editedTwice proper properActions (by decide +kernel)).1
      (by decide +kernel)).2.1⟩

theorem undo_history_without_page :
    let session := (editorRun (some (textPage [("a", "one")])) "1"
      [.reset none "", .edit (some (textPage [("a", "one")]))]).1
    session.undoStack = [] ∧ session.dirty = true ∧
        pagesEqual session.basePage session.draftPage = false := by
  decide +kernel

end Scribe.Editor
