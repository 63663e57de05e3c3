import Scribe.Editor.Runs

/-! The invariant of an editor session.

The dirty flag and the history limit hold without condition. Identifiers stay pending only
while they are locally touched, as long as no save response brings a dispute about the
reading order alone: a save keeps such an identifier pending without looking at the new
base. The revision does not decrease while the session has a page and responses carry a
number.
-/

set_option autoImplicit false

namespace Scribe.Editor

open List

/-! ## Pending identifiers -/

def PendingTouched (session : EditorSession) : Prop :=
  ∀ id ∈ session.pendingRemoteIds, id ∈ pageLocallyTouchedIds session.basePage session.draftPage

theorem pendingTouched_create (page : Option AnnotationPage) (revision : String) :
    PendingTouched (createEditorSession page revision) := fun _ member => absurd member not_mem_nil

theorem pendingTouched_of_lifecycle (session : EditorSession) {result : EditorSession}
    {draft : AnnotationPage} (base : result.basePage = session.basePage)
    (isDraft : result.draftPage = some draft)
    (pending : result.pendingRemoteIds = pendingIdsForDraft session draft) :
    PendingTouched result := by
  intro id member
  rw [pending] at member
  rw [base, isDraft]
  exact of_decide_eq_true (mem_filter.mp member).2

theorem editSession_pendingTouched {session : EditorSession} (touched : PendingTouched session)
    (page : Option AnnotationPage) : PendingTouched (editSession session page) := by
  cases page with
  | none => exact touched
  | some next =>
    simp only [editSession]
    split
    · exact touched
    · exact pendingTouched_of_lifecycle session rfl rfl rfl

theorem mem_foldl_insertId {ids more : List String} {id : String}
    (member : id ∈ more.foldl insertId ids) : id ∈ ids ∨ id ∈ more := by
  induction more generalizing ids with
  | nil => exact .inl member
  | cons first rest ih =>
    rcases ih member with inserted | later
    · rw [insertId] at inserted
      split at inserted
      · exact .inl inserted
      · rcases mem_append.mp inserted with old | isFirst
        · exact .inl old
        · exact .inr (mem_singleton.mp isFirst ▸ mem_cons_self)
    · exact .inr (mem_cons_of_mem _ later)

theorem refusedOperation_pendingTouched {session : EditorSession} (touched : PendingTouched session)
    {draft : AnnotationPage} (isDraft : session.draftPage = some draft)
    (submitted transformed : AnnotationPage) (affectedIds : List String) :
    PendingTouched (refusedOperation session submitted draft transformed affectedIds) := by
  intro id member
  rcases mem_foldl_insertId member with old | overlap
  · exact touched id (mem_eraseDups.mp old)
  · have here := of_decide_eq_true (mem_filter.mp overlap).2
    rw [← isDraft] at here
    exact here

/-! ## Saves -/

def commonIds (base draft remote : AnnotationPage) : List String :=
  (base.ids.filter fun id => id ∈ draft.ids ∧ id ∈ remote.ids).eraseDups

/-- Two pages place an identifier differently among those that all three have. -/
def PlacedApart (base draft remote : AnnotationPage) (id : String) : Prop :=
  id ∈ commonIds base draft remote ∧
    Assoc.get (orderNeighbours (draft.ids.filter (· ∈ commonIds base draft remote))) id ≠
      Assoc.get (orderNeighbours (remote.ids.filter (· ∈ commonIds base draft remote))) id

/-- The draft and the saved page have different values for an annotation that the draft changed. -/
def InConflict (submitted draft saved : AnnotationPage) (id : String) : Prop :=
  sameOptional (submitted.at? id) (draft.at? id) = false ∧
    sameOptional (draft.at? id) (saved.at? id) = false

/-- An identifier that was pending, or was moved on both sides, is placed alike in the draft and in
the saved page, or is in conflict anyway. -/
def OrderSettled (submitted draft saved : AnnotationPage) (pending : List String) : Prop :=
  ∀ id, PlacedApart submitted draft saved id →
    (id ∈ pending ∨ (id ∈ orderTouchedIds submitted.ids draft.ids ∧
      id ∈ orderTouchedIds submitted.ids saved.ids)) →
    InConflict submitted draft saved id

section Pending

variable {base draft remote : AnnotationPage} {order : OrderMerge} {prior : List String}

def MergePending (base draft remote : AnnotationPage) (order : OrderMerge) (prior : List String)
    (id : String) : Prop :=
  InConflict base draft remote id ∨ id ∈ order.conflictIds ∨ (id ∈ prior ∧ id ∈ order.disagreementIds)

theorem mem_insertId {ids : List String} {id other : String} (member : other ∈ insertId ids id) :
    other ∈ ids ∨ other = id := by
  rw [insertId] at member
  split at member
  · exact .inl member
  · simpa using member

section
variable (distinctBase : DistinctIds base) (distinctDraft : DistinctIds draft)
  (distinctRemote : DistinctIds remote)
include distinctBase distinctDraft distinctRemote

theorem mergeItem_pending {state : MergeState} {id other : String}
    (member : other ∈ (mergeItem (itemsById (some base)) (itemsById (some draft))
      (itemsById (some remote)) order prior
      state id).pendingRemoteIds) :
    other ∈ state.pendingRemoteIds ∨ (other = id ∧ MergePending base draft remote order prior id) := by
  simp only [mergeItem, distinctBase.get_itemsById, distinctDraft.get_itemsById,
    distinctRemote.get_itemsById] at member
  have flagged : ∀ {ids : List String}, (other ∈ ids → other ∈ state.pendingRemoteIds ∨
        (other = id ∧ MergePending base draft remote order prior id)) →
      (id ∈ order.conflictIds ∨ (id ∈ prior ∧ id ∈ order.disagreementIds)) → other ∈ insertId ids id →
      other ∈ state.pendingRemoteIds ∨
      (other = id ∧ MergePending base draft remote order prior id) := by
    intro ids inner flag listed
    rcases mem_insertId listed with old | rfl
    · exact inner old
    · exact .inr ⟨rfl, .inr flag⟩
  by_cases changed : sameOptional (base.at? id) (draft.at? id) = true
  · -- an annotation that the draft left alone is pending for its place only
    simp only [changed, Bool.not_true, Bool.false_eq_true, if_false] at member
    split at member
    case isTrue flag =>
      refine flagged (fun old => .inl ?_) flag member
      cases found : remote.at? id <;> simpa [found] using old
    case isFalse =>
      refine .inl ?_
      cases found : remote.at? id <;> simpa [found] using member
  · have isChanged : sameOptional (base.at? id) (draft.at? id) = false := by simpa using changed
    have content : other ∈ (if (!sameOptional (draft.at? id) (remote.at? id)) = true ∧
          ((!sameOptional (base.at? id) (remote.at? id)) = true ∨ id ∈ prior)
        then insertId state.pendingRemoteIds id else state.pendingRemoteIds) →
        other ∈ state.pendingRemoteIds ∨
        (other = id ∧ MergePending base draft remote order prior id) := by
      intro listed
      split at listed
      case isTrue conflict =>
        rcases mem_insertId listed with old | rfl
        · exact .inl old
        · exact .inr ⟨rfl, .inl ⟨isChanged, by simpa using conflict.1⟩⟩
      case isFalse => exact .inl listed
    simp only [isChanged, Bool.not_false, if_true] at member
    split at member
    case isTrue flag => exact flagged content flag member
    case isFalse => exact content member

theorem foldl_mergeItem_pending {ids : List String} {state : MergeState} {id : String}
    (member : id ∈ (ids.foldl (mergeItem (itemsById (some base)) (itemsById (some draft))
      (itemsById (some remote)) order
      prior) state).pendingRemoteIds) :
    id ∈ state.pendingRemoteIds ∨ MergePending base draft remote order prior id := by
  induction ids generalizing state with
  | nil => exact .inl member
  | cons first rest ih =>
    rcases ih member with inner | pending
    · rcases mergeItem_pending distinctBase distinctDraft distinctRemote inner with
          old | ⟨rfl, pending⟩
      · exact .inl old
      · exact .inr pending
    · exact .inr pending

theorem mem_mergeDraftOntoRemote_pending {id : String}
    (member : id ∈ (mergeDraftOntoRemote base draft remote prior).pendingRemoteIds) :
    MergePending base draft remote (mergeReadingOrder base draft remote) prior id := by
  rcases foldl_mergeItem_pending distinctBase distinctDraft distinctRemote member with none | pending
  · cases none
  · exact pending

end

theorem mem_disagreementIds {id : String} :
    id ∈ (mergeReadingOrder base draft remote).disagreementIds ↔ PlacedApart base draft remote id := by
  simp only [mergeReadingOrder, mem_filter, decide_eq_true_eq]
  rfl

theorem mem_conflictIds {id : String} : id ∈ (mergeReadingOrder base draft remote).conflictIds ↔
    id ∈ orderTouchedIds base.ids draft.ids ∧ id ∈ orderTouchedIds base.ids remote.ids ∧
      PlacedApart base draft remote id := by
  rw [← mem_disagreementIds]
  simp only [mergeReadingOrder, mem_filter, decide_eq_true_eq]
  rfl

theorem inConflict_touched (properBase : ProperPage base) (properDraft : ProperPage draft)
    (properRemote : ProperPage remote) {id : String} (conflict : InConflict base draft remote id) :
    id ∈ pageLocallyTouchedIds (some remote)
    (some (mergeDraftOntoRemote base draft remote prior).page) := by
  have merged := mergeDraftOntoRemote_threeWay properBase.distinct properDraft.distinct
    properRemote.distinct prior
  have proper := mergeDraftOntoRemote_proper properBase properDraft properRemote prior
  have apart : sameOptional (remote.at? id) ((mergeDraftOntoRemote base draft remote prior).page.at?
      id) = false := by
    rw [merged.changed id conflict.1]
    by_contra same
    have back := sameOptional_symm properRemote.at?_proper properDraft.at?_proper (by simpa using same)
    rw [conflict.2] at back
    cases back
  simp only [pageLocallyTouchedIds, mem_eraseDups, mem_append, mem_filter,
    proper.distinct.get_itemsById, properRemote.distinct.get_itemsById]
  refine .inl (.inl ⟨?_, by simp [apart]⟩)
  by_contra absent
  rw [not_or] at absent
  rw [← properRemote.distinct.get_itemsById, ← proper.distinct.get_itemsById,
    (Assoc.get_eq_none_iff _ _).mpr absent.1, (Assoc.get_eq_none_iff _ _).mpr absent.2] at apart
  cases apart

theorem savedOnto_pendingTouched {session : EditorSession} (properBase : ProperPage base)
    (properDraft : ProperPage draft) (properRemote : ProperPage remote)
    (settled : OrderSettled base draft remote session.pendingRemoteIds) (revision : String) :
    PendingTouched (savedOnto session base draft remote revision) := by
  intro id member
  have pending := mem_mergeDraftOntoRemote_pending properBase.distinct properDraft.distinct
    properRemote.distinct member
  refine inConflict_touched properBase properDraft properRemote ?_
  rcases pending with conflict | moved | ⟨prior, disagrees⟩
  · exact conflict
  · obtain ⟨touched, touchedToo, apart⟩ := mem_conflictIds.mp moved
    exact settled id apart (.inr ⟨touched, touchedToo⟩)
  · exact settled id (mem_disagreementIds.mp disagrees) (.inl prior)

end Pending

/-- A save response that is merged into a changed draft settles the reading order. -/
def SaveSettled (session : EditorSession) : SessionAction → Prop
  | .saved page revision submittedPage submittedRevision =>
    ∀ saved draft submitted, responsePage session page submittedPage = some saved →
      session.draftPage = some draft →
      submittedPage.getD session.draftPage = some submitted →
      ¬StaleResponse session (some submitted) saved revision
        (submittedRevision.getD session.revision) →
      pagesEqual (some draft) (some submitted) = false →
      OrderSettled submitted draft saved session.pendingRemoteIds
  | _ => True

theorem reducer_pendingTouched {session : EditorSession} {recorded : Nat}
    (traced : Traced (session.view recorded)) (touched : PendingTouched session)
    {action : SessionAction} (proper : ProperAction action) (settles : SaveSettled session action) :
    PendingTouched (editorSessionReducer session action) := by
  cases action with
  | edit page => exact editSession_pendingTouched touched page
  | undo =>
    simp only [editorSessionReducer, undoSession]
    split
    · exact pendingTouched_of_lifecycle session rfl rfl rfl
    · exact touched
  | redo =>
    simp only [editorSessionReducer, redoSession]
    split
    · exact pendingTouched_of_lifecycle session rfl rfl rfl
    · exact touched
  | loadStart => exact touched
  | rebase page revision =>
    rw [editorSessionReducer]
    rcases rebaseSession_cases session page revision with ⟨_, kept⟩ | ⟨_, _, _, created⟩ |
        ⟨_, _, _, _, _, _, ⟨_, created⟩ | ⟨_, _, kept⟩ | ⟨_, _, rebased⟩⟩
    · rwa [kept]
    · rw [created]
      exact pendingTouched_create _ _
    · rw [created]
      exact pendingTouched_create _ _
    · rwa [kept]
    · rw [rebased]
      exact fun id member => of_decide_eq_true (mem_filter.mp member).2
  | remoteItem item =>
    simp only [editorSessionReducer, applyRemoteAnnotation]
    split
    · split
      · exact touched
      · exact fun id member => of_decide_eq_true (mem_filter.mp member).2
    · exact touched
  | saveStart =>
    simp only [editorSessionReducer]
    split <;> exact touched
  | saveConflict error => exact touched
  | saveError error => exact touched
  | dismissError => exact touched
  -- The only reducer that keeps the merge's pending identifiers unfiltered: here the condition is
  -- needed.
  | saved page revision submittedPage submittedRevision =>
    rw [editorSessionReducer]
    rcases acceptSavedSession_cases session page revision submittedPage submittedRevision with
      ⟨_, created⟩ | ⟨saved, found,
        ⟨_, settled⟩ | ⟨fresh, created | ⟨draft, submitted, isDraft, isSubmitted, apart, merged⟩⟩⟩
    · rw [created]
      exact pendingTouched_create _ _
    · rw [settled, settledSession]
      split <;> exact touched
    · rw [created]
      exact pendingTouched_create _ _
    · have properSubmitted : ProperPage submitted := by
        cases submittedPage with
        | none => exact traced.draft submitted isSubmitted
        | some page => exact proper.pages submitted (by
            rw [Option.getD_some] at isSubmitted
            simp [SessionAction.pages, isSubmitted])
      have properSaved : ProperPage saved := by
        rw [responsePage, isSubmitted, Option.or_eq_some_iff] at found
        rcases found with here | ⟨_, here⟩
        · exact proper.pages saved (by simp [SessionAction.pages, here])
        · rw [Option.some_or, Option.some.injEq] at here
          exact here ▸ properSubmitted
      rw [isSubmitted] at fresh
      rw [merged]
      exact savedOnto_pendingTouched properSubmitted (traced.draft draft isDraft) properSaved
        (settles saved draft submitted found isDraft isSubmitted fresh apart) revision
  | transformResult submittedPage page affectedIds atomic =>
    rw [editorSessionReducer]
    rcases applyPageTransformSession_cases session submittedPage page affectedIds atomic with
      kept | ⟨draft, submitted, transformed, isDraft, _, _, edited | refused | operated⟩
    · rwa [kept]
    · rw [edited]
      exact editSession_pendingTouched touched _
    · rw [refused]
      exact refusedOperation_pendingTouched touched isDraft submitted transformed affectedIds
    · intro id member
      rw [operated.base, operated.isDraft]
      exact operated.pending id member
  | reset page revision => exact pendingTouched_create page revision

/-! ## The history limit -/

theorem Effect.length_undo {view next : HistoryView} (effect : Effect view next)
    (bound : view.undo.length ≤ historyLimit) : next.undo.length ≤ historyLimit := by
  cases effect with
  | kept => exact bound
  | created page proper => exact Nat.zero_le _
  | rebuilt base draft proper properToo =>
    simp only [historyForRebasedDraft, historyLimit]
    split <;> simp
  | opened next proper noDraft => exact bound
  | recorded draft next isDraft proper => exact (length_pushHistory _ _).2
  | replaced draft next isDraft proper same => exact bound
  | undone draft undo patch isDraft isUndo =>
    rw [isUndo, length_append] at bound
    simp only
    omega
  | redone draft redo patch isDraft isRedo => exact (length_pushHistory _ _).2

/-! ## Revisions -/

/-- The number that a revision stands for. -/
def numericRevision (revision : String) : Option Int := if revision = "" then none else bigInt revision

theorem revisionIsOlder_false {candidate current : String}
    (current' : revisionIsOlder candidate current = false) {low high : Int}
    (isLow : numericRevision current = some low) (isHigh : numericRevision candidate = some high) :
    low ≤ high := by
  simp only [numericRevision] at isLow isHigh
  split at isLow
  · cases isLow
  split at isHigh
  · cases isHigh
  rename_i named namedToo
  simpa [revisionIsOlder, named, namedToo, isLow, isHigh] using current'

def EditorSession.pageId (session : EditorSession) : String :=
  if Editor.pageId session.basePage = "" then Editor.pageId session.draftPage
  else Editor.pageId session.basePage

def SessionAction.revision? : SessionAction → Option String
  | .rebase _ revision => revision
  | .saved _ revision _ _ => some revision
  | _ => none

def SessionAction.isReset : SessionAction → Bool
  | .reset _ _ => true
  | _ => false

/-- A session with pages and a numeric revision. -/
structure Numbered (session : EditorSession) (number : Int) : Prop where
  base : session.basePage.isSome = true
  isDraft : session.draftPage.isSome = true
  revision : numericRevision session.revision = some number

section Revision

variable {session : EditorSession} {number : Int}

section
variable {next : EditorSession} (numbered : Numbered session number)
  (base : next.basePage.isSome = true) (isDraft : next.draftPage.isSome = true)
include numbered base isDraft

theorem Numbered.of_same
        (revision : next.revision = session.revision) :
    ∃ later, Numbered next later ∧ number ≤ later :=
  ⟨number, ⟨base, isDraft, revision ▸ numbered.revision⟩, Int.le_refl _⟩

theorem Numbered.of_current (current : revisionIsOlder next.revision session.revision = false)
    (isNumeric : (numericRevision next.revision).isSome = true) :
    ∃ later, Numbered next later ∧ number ≤ later := by
  obtain ⟨later, isLater⟩ := Option.isSome_iff_exists.mp isNumeric
  exact ⟨later, ⟨base, isDraft, isLater⟩, revisionIsOlder_false current numbered.revision isLater⟩

end

theorem editSession_numbered (numbered : Numbered session number) (page : Option AnnotationPage) :
    ∃ later, Numbered (editSession session page) later ∧ number ≤ later := by
  cases page with
  | none => exact numbered.of_same numbered.base numbered.isDraft rfl
  | some next =>
    simp only [editSession]
    split
    · exact numbered.of_same numbered.base numbered.isDraft rfl
    · exact numbered.of_same numbered.base rfl rfl

theorem reducer_numbered (numbered : Numbered session number) {action : SessionAction}
    (noReset : action.isReset = false)
    (isNumeric : ∀ revision ∈ action.revision?, (numericRevision revision).isSome = true)
    (samePage : (editorSessionReducer session action).pageId = session.pageId) :
    ∃ later, Numbered (editorSessionReducer session action) later ∧ number ≤ later := by
  have same : ∃ later, Numbered session later ∧ number ≤ later := ⟨number, numbered, Int.le_refl _⟩
  cases action with
  | edit page => exact editSession_numbered numbered page
  | undo =>
    simp only [editorSessionReducer, undoSession]
    split
    · exact numbered.of_same numbered.base rfl rfl
    · exact same
  | redo =>
    simp only [editorSessionReducer, redoSession]
    split
    · exact numbered.of_same numbered.base rfl rfl
    · exact same
  | loadStart => exact numbered.of_same numbered.base numbered.isDraft rfl
  | rebase page revision =>
    have isRevision : (numericRevision (revision.getD session.revision)).isSome = true := by
      cases revision with
      | none => rw [Option.getD_none, numbered.revision]; rfl
      | some revision => exact isNumeric revision rfl
    rw [editorSessionReducer] at samePage ⊢
    rcases rebaseSession_cases session page revision with ⟨_, kept⟩ | ⟨remote, _, missing, _⟩ |
        ⟨remote, base, draft, _, isBase, isDraft,
          ⟨other, created⟩ | ⟨_, _, kept⟩ | ⟨_, current, rebased⟩⟩
    · rwa [kept]
    -- A numbered session has both pages.
    · rcases missing with noBase | noDraft
      · have := numbered.base
        rw [noBase] at this
        cases this
      · have := numbered.isDraft
        rw [noDraft] at this
        cases this
    -- A rebase onto another resource changes the page id, which the hypothesis excludes.
    · rw [created] at samePage
      have left : (createEditorSession (some remote) (revision.getD session.revision)).pageId =
          Editor.pageId (some remote) :=
        ite_self _
      have right : session.pageId = currentPageId base draft := by
        rw [EditorSession.pageId, isBase, isDraft, currentPageId]
      rw [left, right] at samePage
      exact absurd samePage.symm other.2.2
    · rwa [kept]
    · rw [rebased]
      exact numbered.of_current rfl rfl current isRevision
  | remoteItem item =>
    simp only [editorSessionReducer, applyRemoteAnnotation]
    split
    · split
      · exact same
      · exact numbered.of_same rfl rfl rfl
    · exact same
  | saveStart =>
    simp only [editorSessionReducer]
    split <;> exact numbered.of_same numbered.base numbered.isDraft rfl
  | saveConflict error => exact numbered.of_same numbered.base numbered.isDraft rfl
  | saveError error => exact numbered.of_same numbered.base numbered.isDraft rfl
  | dismissError => exact numbered.of_same numbered.base numbered.isDraft rfl
  | saved page revision submittedPage submittedRevision =>
    have isRevision := isNumeric revision rfl
    rw [editorSessionReducer]
    rcases acceptSavedSession_cases session page revision submittedPage submittedRevision with
      ⟨none, _⟩ | ⟨saved, found, ⟨_, settled⟩ | ⟨fresh, outcome⟩⟩
    · have isDraft := numbered.isDraft
      rw [responsePage, Option.or_eq_none_iff, Option.or_eq_none_iff] at none
      rw [none.2.2] at isDraft
      cases isDraft
    · rw [settled, settledSession]
      split <;> exact numbered.of_same numbered.base numbered.isDraft rfl
    · have current : revisionIsOlder revision session.revision = false := by
        cases older : revisionIsOlder revision session.revision with
        | false => rfl
        | true => exact absurd (.inr (.inl older)) fresh
      rcases outcome with created | ⟨_, _, _, _, _, merged⟩
      · rw [created]
        exact numbered.of_current rfl rfl current isRevision
      · rw [merged]
        exact numbered.of_current rfl rfl current isRevision
  | transformResult submittedPage page affectedIds atomic =>
    rw [editorSessionReducer]
    rcases applyPageTransformSession_cases session submittedPage page affectedIds atomic with
      kept | ⟨_, _, _, _, _, _, edited | refused | operated⟩
    · rwa [kept]
    · rw [edited]
      exact editSession_numbered numbered _
    · rw [refused]
      exact numbered.of_same numbered.base numbered.isDraft rfl
    · refine numbered.of_same ?_ ?_ operated.revision
      · rw [operated.base]
        exact numbered.base
      · rw [operated.isDraft]
        rfl
  | reset page revision => cases noReset

end Revision

/-! ## Runs -/

theorem editorRun_append (page : Option AnnotationPage) (revision : String)
    (before after : List SessionAction) :
    editorRun page revision (before ++ after) = after.foldl stepRun (editorRun page revision before) :=
  foldl_append

theorem editorRun_concat (page : Option AnnotationPage) (revision : String)
    (before : List SessionAction) (action : SessionAction) :
    editorRun page revision (before ++ [action]) =
      stepRun (editorRun page revision before) action :=
  editorRun_append page revision before [action]

section
variable {page : Option AnnotationPage} {actions : List SessionAction}
  (proper : ∀ present ∈ page, ProperPage present) (revision : String)
  (properActions : ∀ action ∈ actions, ProperAction action)
include proper revision properActions

theorem editorRun_length_undo : (editorRun page revision actions).1.undoStack.length ≤
      historyLimit := by
  induction actions using List.reverseRecOn with
  | nil => exact Nat.zero_le _
  | append_singleton before action ih =>
    have properBefore : ∀ other ∈ before, ProperAction other :=
      fun other member => properActions other (mem_append_left _ member)
    rw [editorRun_concat]
    exact (reducer_effect (editorRun_traced proper revision properBefore).1
      (properActions action (by simp))).length_undo (ih properBefore)

theorem editorRun_pendingTouched (settles : ∀ before action after,
      actions = before ++ action :: after →
      SaveSettled (editorRun page revision before).1 action) :
    PendingTouched (editorRun page revision actions).1 := by
  induction actions using List.reverseRecOn with
  | nil => exact pendingTouched_create page revision
  | append_singleton before action ih =>
    have properBefore : ∀ other ∈ before, ProperAction other :=
      fun other member => properActions other (mem_append_left _ member)
    have touched := ih properBefore fun first middle last split =>
      settles first middle (last ++ [action]) (by simp [split])
    rw [editorRun_concat]
    exact reducer_pendingTouched (editorRun_traced proper revision properBefore).1 touched
      (properActions action (by simp)) (settles before action [] rfl)

end

theorem editorRun_revision (page : Option AnnotationPage) (revision : String)
    (before : List SessionAction) {number : Int}
    (numbered : Numbered (editorRun page revision before).1 number) (segment : List SessionAction)
    (noReset : ∀ action ∈ segment, action.isReset = false)
    (isNumeric : ∀ action ∈ segment, ∀ revision ∈ action.revision?,
      (numericRevision revision).isSome = true)
    (samePage : ∀ first second, segment = first ++ second →
      (editorRun page revision (before ++ first)).1.pageId =
        (editorRun page revision before).1.pageId) :
    ∃ later, Numbered (editorRun page revision (before ++ segment)).1 later ∧ number ≤ later := by
  induction segment using List.reverseRecOn with
  | nil =>
    rw [append_nil]
    exact ⟨number, numbered, Int.le_refl _⟩
  | append_singleton segment action ih =>
    obtain ⟨middle, isMiddle, le⟩ := ih (fun other member => noReset other (mem_append_left _ member))
      (fun other member => isNumeric other (mem_append_left _ member))
      fun first second split => samePage first (second ++ [action]) (by simp [split])
    have here := samePage segment [action] rfl
    have next := samePage (segment ++ [action]) [] (by simp)
    rw [← append_assoc, editorRun_concat] at next ⊢
    obtain ⟨later, isLater, leToo⟩ := reducer_numbered isMiddle (noReset action (by simp))
      (isNumeric action (by simp)) (next.trans here.symm)
    exact ⟨later, isLater, Int.le_trans le leToo⟩

/-- Every session that actions with proper pages reach: the dirty flag is exact and the history
bounded; pending identifiers are touched if every merged save settles the reading order; and the
revision does not decrease while the session has pages under one identifier, is not reset, and takes
numeric revisions. -/
theorem editor_session_invariant (page : Option AnnotationPage) (revision : String)
    (actions : List SessionAction) (proper : ∀ present ∈ page, ProperPage present)
    (properActions : ∀ action ∈ actions, ProperAction action) :
    let session := (editorRun page revision actions).1
    (session.dirty = true ↔ pagesEqual session.basePage session.draftPage = false) ∧
    session.undoStack.length ≤ historyLimit ∧
    ((∀ before action after, actions = before ++ action :: after →
        SaveSettled (editorRun page revision before).1 action) →
      ∀ id ∈ session.pendingRemoteIds, id ∈ pageLocallyTouchedIds session.basePage session.draftPage) ∧
    ∀ before segment, actions = before ++ segment →
      (editorRun page revision before).1.basePage.isSome = true →
      (editorRun page revision before).1.draftPage.isSome = true →
      (∀ action ∈ segment, action.isReset = false ∧
        ∀ revision ∈ action.revision?, (numericRevision revision).isSome = true) →
      (∀ first second, segment = first ++ second →
        (editorRun page revision (before ++ first)).1.pageId =
          (editorRun page revision before).1.pageId) →
      ∀ number, numericRevision (editorRun page revision before).1.revision = some number →
        ∃ later, numericRevision session.revision = some later ∧ number ≤ later := by
  intro session
  obtain ⟨_, flag⟩ := editorRun_traced proper revision properActions
  refine ⟨?_, editorRun_length_undo proper revision properActions,
    editorRun_pendingTouched proper revision properActions, ?_⟩
  · change session.dirty = !pagesEqual session.basePage session.draftPage at flag
    rw [flag, Bool.not_eq_true']
  · rintro before segment rfl hasBase hasDraft steps samePage number isNumber
    obtain ⟨later, isLater, le⟩ :=
      editorRun_revision page revision before ⟨hasBase, hasDraft, isNumber⟩ segment
      (fun action member => (steps action member).1) (fun action member =>
        (steps action member).2) samePage
    exact ⟨later, isLater.revision, le⟩

def theirs : Json := textAnnotation "a" "theirs"

/-- A remote change of `a` is in conflict with a local one; the draft is submitted, `b` is edited,
and the response has the submitted annotations with `a` and `b` in the other order. -/
def reorderingSave : List SessionAction :=
  [.edit (some (textPage [("a", "mine"), ("b", "two"), ("c", "three")])),
    .remoteItem theirs, .saveStart,
    .edit (some (textPage [("a", "mine"), ("b", "later"), ("c", "three")])),
    .saved (some (textPage [("b", "two"), ("a", "mine"), ("c", "three")])) "2"
      (some (some (textPage [("a", "mine"), ("b", "two"), ("c", "three")]))) (some "1")]

theorem reorderingSave_pending :
    let session :=
  (editorRun (some (textPage [("a", "one"), ("b", "two"), ("c", "three")])) "1" reorderingSave).1
    session.pendingRemoteIds = ["a"] ∧
        pageLocallyTouchedIds session.basePage session.draftPage = ["b"] := by
  decide +kernel

/-- The same response when `a`, the annotation in conflict, was edited again instead of `b`. -/
def settlingSave : List SessionAction :=
  [.edit (some (textPage [("a", "mine"), ("b", "two"), ("c", "three")])),
    .remoteItem theirs, .saveStart,
    .edit (some (textPage [("a", "again"), ("b", "two"), ("c", "three")])),
    .saved (some (textPage [("b", "two"), ("a", "mine"), ("c", "three")])) "2"
      (some (some (textPage [("a", "mine"), ("b", "two"), ("c", "three")]))) (some "1")]

theorem settlingSave_proper : ∀ action ∈ settlingSave, ProperAction action := by
  have pages : ∀ text, ProperPage (textPage [("a", text), ("b", "two"), ("c", "three")]) :=
    fun text => textPage_proper (by simp) (by simp)
  have saved : ProperPage (textPage [("b", "two"), ("a", "mine"), ("c", "three")]) :=
    textPage_proper (by simp) (by simp)
  intro action member
  simp only [settlingSave, mem_cons, not_mem_nil, or_false] at member
  rcases member with rfl | rfl | rfl | rfl | rfl
  · exact ⟨by simpa [SessionAction.pages] using pages "mine", by simp [SessionAction.item?]⟩
  · refine ⟨by simp [SessionAction.pages], ?_⟩
    rintro item ⟨⟩
    exact (pages "theirs").items theirs (by decide +kernel)
  · exact ⟨by simp [SessionAction.pages], by simp [SessionAction.item?]⟩
  · exact ⟨by simpa [SessionAction.pages] using pages "again", by simp [SessionAction.item?]⟩
  · exact ⟨by simpa [SessionAction.pages] using ⟨saved, pages "mine"⟩, by simp [SessionAction.item?]⟩

theorem settlingSave_settled : ∀ before action after, settlingSave = before ++ action :: after →
    SaveSettled (editorRun (some (textPage [("a", "one"), ("b", "two"), ("c", "three")])) "1"
      before).1 action := by
  have earlier : ∀ action ∈ settlingSave.take 4, ∀ session, SaveSettled session action := by
    simp [settlingSave, SaveSettled]
  intro before action after split
  by_cases last : before.length < 4
  · refine earlier action ?_ _
    rw [split, take_append, mem_append, take_cons (by omega)]
    exact .inr mem_cons_self
  · -- The response itself: `a` alone is pending, and the draft changed it.
    have isBefore : before = settlingSave.take 4 := by
      have lengths := congrArg List.length split
      rw [length_append, length_cons, show settlingSave.length = 5 from rfl] at lengths
      rw [split, show 4 = before.length by omega, take_left]
    subst isBefore
    obtain ⟨rfl, -⟩ :=
      List.cons.inj (append_cancel_left (split.symm.trans (take_append_drop 4 settlingSave).symm))
    intro saved draft submitted isSaved isDraft isSubmitted _ _ id apart either
    have session : (editorRun (some (textPage [("a", "one"), ("b", "two"), ("c", "three")])) "1"
          (settlingSave.take 4)).1.draftPage = some (textPage [("a", "again"), ("b", "two"),
            ("c", "three")]) ∧
        (editorRun (some (textPage [("a", "one"), ("b", "two"), ("c", "three")])) "1"
          (settlingSave.take 4)).1.pendingRemoteIds = ["a"] := by decide +kernel
    obtain rfl := Option.some.inj (isDraft.symm.trans session.1)
    obtain rfl := Option.some.inj isSaved
    obtain rfl := Option.some.inj isSubmitted
    rcases either with pending | ⟨moved, -⟩
    · rw [session.2, mem_singleton] at pending
      subst pending
      exact ⟨by decide +kernel, by decide +kernel⟩
    · have unmoved : orderTouchedIds (textPage [("a", "mine"), ("b", "two"), ("c", "three")]).ids
          (textPage [("a", "again"), ("b", "two"), ("c", "three")]).ids = [] := by decide +kernel
      rw [unmoved] at moved
      cases moved

theorem editor_session_invariant_settling_save :
    let session :=
  (editorRun (some (textPage [("a", "one"), ("b", "two"), ("c", "three")])) "1" settlingSave).1
    session.revision = "2" ∧ session.pendingRemoteIds = ["a"] ∧
      (session.dirty = true ↔ pagesEqual session.basePage session.draftPage = false) ∧
      ∀ id ∈ session.pendingRemoteIds,
          id ∈ pageLocallyTouchedIds session.basePage session.draftPage := by
  have proper : ∀ present ∈ some (textPage [("a", "one"), ("b", "two"), ("c", "three")]),
      ProperPage present := by
    rintro present ⟨⟩
    exact textPage_proper (by simp) (by simp)
  have holds := editor_session_invariant _ "1" settlingSave proper settlingSave_proper
  exact ⟨by decide +kernel, by decide +kernel, holds.1, holds.2.2.1 settlingSave_settled⟩

end Scribe.Editor
