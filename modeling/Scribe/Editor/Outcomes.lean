import Scribe.Editor.Merge

/-! What each reducer of an editor session can do.

A load is ignored, replaces the session or rebases its draft; a save response is settled,
replaces the session or carries the draft onto the saved page; an operation is ignored,
taken as an edit, refused as a conflict or merged into the draft.
-/

set_option autoImplicit false

namespace Scribe.Editor

section Results

variable (session : EditorSession) (base draft remote : AnnotationPage)

/-- The session with its draft carried onto a loaded page. -/
def rebasedOnto (revision : String) : EditorSession :=
  let merged := mergeDraftOntoRemote base draft remote session.pendingRemoteIds
  { session with
    basePage := some remote
    dirty := !pagesEqual (some remote) (some merged.page)
    draftPage := some merged.page
    error := none
    pendingRemoteIds :=
      merged.pendingRemoteIds.filter (· ∈ pageLocallyTouchedIds (some remote) (some merged.page))
    redoStack := []
    revision
    status := if session.status = .saving then .saving else .ready
    conflictKind := none
    undoStack := historyForRebasedDraft remote merged.page }

def settledSession : EditorSession :=
  if session.status = .saving then { session with error := none, status := .ready } else session

/-- The session with its draft carried onto a saved page. -/
def savedOnto (revision : String) : EditorSession :=
  let merged := mergeDraftOntoRemote base draft remote session.pendingRemoteIds
  { session with
    basePage := some remote
    dirty := !pagesEqual (some remote) (some merged.page)
    draftPage := some merged.page
    error := none
    conflictKind := none
    pendingRemoteIds := merged.pendingRemoteIds
    redoStack := []
    revision
    status := .ready
    undoStack := historyForRebasedDraft remote merged.page }

/-- The identifiers that an operation and the draft both changed. -/
def overlapIds (affectedIds : List String) : List String :=
  ((affectedIds ++ pageLocallyTouchedIds (some base) (some remote)).eraseDups).filter
    (· ∈ pageLocallyTouchedIds (some base) (some draft))

def refusedOperation (affectedIds : List String) : EditorSession :=
  let preserveSaveConflict := session.status = .conflict ∧ session.conflictKind = some .save
  { session with
    conflictKind := some (if preserveSaveConflict then .save else .transform)
    error := if preserveSaveConflict then session.error else some structuralConflictMessage
    pendingRemoteIds :=
      ((overlapIds base draft remote affectedIds).filter
        (· ∈ pageLocallyTouchedIds session.basePage (some draft))).foldl
        insertId session.pendingRemoteIds.eraseDups
    status := .conflict }

def operationPage : AnnotationPage :=
  { metadata := if !sameMetadata (some base.metadata) (some draft.metadata) then draft.metadata
    else remote.metadata
    items := (mergeDraftOntoRemote base draft remote session.pendingRemoteIds).page.items }

end Results

section Outcomes

variable (session : EditorSession)

theorem rebaseSession_cases (page : Option AnnotationPage) (revision : Option String) :
    (page = none ∧ rebaseSession session page revision = session) ∨
    (∃ remote, page = some remote ∧ (session.basePage = none ∨ session.draftPage = none) ∧
      rebaseSession session page revision =
        createEditorSession (some remote) (revision.getD session.revision)) ∨
    ∃ remote base draft, page = some remote ∧ session.basePage = some base ∧
      session.draftPage = some draft ∧
      ((OtherResource (currentPageId base draft) (pageId (some remote)) ∧
          rebaseSession session page revision =
            createEditorSession (some remote) (revision.getD session.revision)) ∨
        (¬OtherResource (currentPageId base draft) (pageId (some remote)) ∧
          revisionIsOlder (revision.getD session.revision) session.revision = true ∧
          rebaseSession session page revision = session) ∨
        (¬OtherResource (currentPageId base draft) (pageId (some remote)) ∧
          revisionIsOlder (revision.getD session.revision) session.revision = false ∧
          rebaseSession session page revision =
            rebasedOnto session base draft remote (revision.getD session.revision))) := by
  cases page with
  | none => exact .inl ⟨rfl, rfl⟩
  | some remote =>
    refine .inr ?_
    cases isBase : session.basePage with
    | none => exact .inl ⟨remote, rfl, .inl rfl, by simp only [rebaseSession, isBase]⟩
    | some base => cases isDraft : session.draftPage with
      | none => exact .inl ⟨remote, rfl, .inr rfl, by simp only [rebaseSession, isBase, isDraft]⟩
      | some draft =>
        refine .inr ⟨remote, base, draft, rfl, rfl, rfl, ?_⟩
        by_cases other : OtherResource (currentPageId base draft) (pageId (some remote))
        · exact .inl ⟨other, rebaseSession_other revision isBase isDraft other⟩
        · refine .inr ?_
          cases older : revisionIsOlder (revision.getD session.revision) session.revision with
          | true => exact .inl ⟨other, rfl, rebaseSession_older revision isBase isDraft other older⟩
          | false =>
            refine .inr ⟨other, rfl, ?_⟩
            unfold OtherResource currentPageId at other
            simp only [rebaseSession, isBase, isDraft]
            rw [if_neg other, if_neg (by simp [older])]
            rfl

/-- A response for another page, older than the session, or for a revision the session has left. -/
def StaleResponse (session : EditorSession) (submitted : Option AnnotationPage)
    (saved : AnnotationPage) (revision submittedRevision : String) : Prop :=
  OtherResource (pageId submitted) (pageId (some saved)) ∨
    revisionIsOlder revision session.revision = true ∨
    (submittedRevision ≠ "" ∧ session.revision ≠ submittedRevision)

instance (session : EditorSession) (submitted : Option AnnotationPage) (saved : AnnotationPage)
    (revision submittedRevision : String) :
    Decidable (StaleResponse session submitted saved revision submittedRevision) :=
  inferInstanceAs (Decidable (_ ∨ _ ∨ _))

def responsePage (session : EditorSession) (page : Option AnnotationPage)
    (submittedPage : Option (Option AnnotationPage)) : Option AnnotationPage :=
  page.or ((submittedPage.getD session.draftPage).or session.draftPage)

theorem acceptSavedSession_cases (page : Option AnnotationPage) (revision : String)
    (submittedPage : Option (Option AnnotationPage)) (submittedRevision : Option String) :
    (responsePage session page submittedPage = none ∧
      acceptSavedSession session page revision submittedPage submittedRevision =
        createEditorSession none revision) ∨
    ∃ saved, responsePage session page submittedPage = some saved ∧
      ((StaleResponse session (submittedPage.getD session.draftPage) saved revision
            (submittedRevision.getD session.revision) ∧
          acceptSavedSession session page revision submittedPage submittedRevision =
            settledSession session) ∨
        (¬StaleResponse session (submittedPage.getD session.draftPage) saved revision
            (submittedRevision.getD session.revision) ∧
          (acceptSavedSession session page revision submittedPage submittedRevision =
              createEditorSession (some saved) revision ∨
            ∃ draft submitted, session.draftPage = some draft ∧
              submittedPage.getD session.draftPage = some submitted ∧
              pagesEqual (some draft) (some submitted) = false ∧
              acceptSavedSession session page revision submittedPage submittedRevision =
                savedOnto session submitted draft saved revision))) := by
  unfold StaleResponse OtherResource
  cases found : responsePage session page submittedPage with
  | none =>
    refine .inl ⟨rfl, ?_⟩
    rw [responsePage] at found
    simp only [acceptSavedSession, found]
  | some saved =>
    refine .inr ⟨saved, rfl, ?_⟩
    rw [responsePage] at found
    simp only [acceptSavedSession, found]
    -- The three tests for a stale response, in the order of the source.
    by_cases other : pageId (submittedPage.getD session.draftPage) ≠ "" ∧ pageId (some saved) ≠ "" ∧
        pageId (submittedPage.getD session.draftPage) ≠ pageId (some saved)
    · exact .inl ⟨.inl other, by rw [if_pos other]; rfl⟩
    by_cases older : revisionIsOlder revision session.revision = true
    · exact .inl ⟨.inr (.inl older), by rw [if_neg other, if_pos older]; rfl⟩
    by_cases left : submittedRevision.getD session.revision ≠ "" ∧
        session.revision ≠ submittedRevision.getD session.revision
    · exact .inl ⟨.inr (.inr left), by rw [if_neg other, if_neg older, if_pos left]; rfl⟩
    refine .inr ⟨fun stale => stale.elim other fun rest => rest.elim older left, ?_⟩
    rw [if_neg other, if_neg older, if_neg left]
    split
    case h_1 draft submitted isDraft isSubmitted =>
      -- Edits made since the submission are merged; without any the saved page is taken.
      by_cases equal : pagesEqual (some draft) (some submitted) = true
      · exact .inl (by rw [if_pos equal])
      · refine .inr ⟨draft, submitted, isDraft, isSubmitted, by simpa using equal, ?_⟩
        rw [if_neg equal]
        rfl
    case h_2 => exact .inl rfl

/-- The session after an operation whose result was merged into the draft. -/
structure Operated (session : EditorSession) (draft next : AnnotationPage)
    (result : EditorSession) : Prop where
  base : result.basePage = session.basePage
  isDraft : result.draftPage = some next
  dirty : result.dirty = !pagesEqual session.basePage (some next)
  pending : ∀ id ∈ result.pendingRemoteIds, id ∈ pageLocallyTouchedIds session.basePage (some next)
  redo : result.redoStack = []
  undo : result.undoStack = if patchIsEmpty (createPagePatch (some draft) (some next)) then
    session.undoStack
    else pushHistory session.undoStack (createPagePatch (some draft) (some next))
  revision : result.revision = session.revision

theorem applyPageTransformSession_cases (submittedPage page : Option AnnotationPage)
    (affectedIds : List String) (atomic : Bool) :
    applyPageTransformSession session submittedPage page affectedIds atomic = session ∨
    ∃ draft submitted transformed, session.draftPage = some draft ∧ submittedPage = some submitted ∧
      page = some transformed ∧
      (applyPageTransformSession session submittedPage page affectedIds atomic =
        editSession session (some transformed) ∨
        applyPageTransformSession session submittedPage page affectedIds atomic =
          refusedOperation session submitted draft transformed affectedIds ∨
        Operated session draft (operationPage session submitted draft transformed)
          (applyPageTransformSession session submittedPage page affectedIds atomic)) := by
  cases isDraft : session.draftPage with
  | none => exact .inl (by simp only [applyPageTransformSession, isDraft])
  | some draft => cases submittedPage with
    | none => exact .inl (by simp only [applyPageTransformSession, isDraft])
    | some submitted => cases page with
      | none => exact .inl (by simp only [applyPageTransformSession, isDraft])
      | some transformed =>
        by_cases stale : StaleTransform draft submitted transformed
        · exact .inl (applyPageTransformSession_stale affectedIds atomic isDraft stale)
        refine .inr ⟨draft, submitted, transformed, rfl, rfl, rfl, ?_⟩
        by_cases equal : pagesEqual (some draft) (some submitted) = true
        · exact .inl (applyPageTransformSession_equal affectedIds atomic isDraft stale equal)
        refine .inr ?_
        unfold StaleTransform at stale
        simp only [applyPageTransformSession, isDraft]
        rw [if_neg stale, if_neg equal]
        by_cases overlap : atomic = true ∧ overlapIds submitted draft transformed affectedIds ≠ []
        · refine .inl ?_
          unfold overlapIds at overlap
          rw [if_pos overlap]
          simp only [refusedOperation, overlapIds, isDraft]
        · refine .inr ?_
          unfold overlapIds at overlap
          rw [if_neg overlap]
          refine ⟨rfl, rfl, rfl, fun id pending => ?_, rfl, rfl, rfl⟩
          exact of_decide_eq_true (List.mem_filter.mp pending).2

end Outcomes

end Scribe.Editor
