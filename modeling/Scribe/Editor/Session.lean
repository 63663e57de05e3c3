import Scribe.Data.Json
import Scribe.Data.Text
import Scribe.Editor.ReadingOrder

/-! The page editor's session: a committed base page, the local draft, its undo
history and the three-way merge that carries the draft onto a newer remote page.

Pages are values, so the source's deep copies are the identity here. A page's
metadata is every property except `items`; an item without a string `id` has the
empty identifier.
-/

set_option autoImplicit false

namespace Scribe.Editor

structure AnnotationPage where
  metadata : Object
  items : List Json
  deriving DecidableEq, Repr

def annotationId (item : Json) : String :=
  match Json.field item.toObject "id" with
  | .str id => id
  | _ => ""

/-- Items by identifier. A later item replaces an earlier one with its identifier. -/
def itemsById (page : Option AnnotationPage) : List (String × Json) :=
  match page with
  | none => []
  | some page => Assoc.ofEntries
      ((page.items.filter fun item => annotationId item ≠ "").map fun item =>
        (annotationId item, item))

def itemIds (page : Option AnnotationPage) : List String :=
  match page with
  | none => []
  | some page => page.items.map annotationId

/-- `same` with `undefined` for an absent value. -/
def sameOptional : Option Json → Option Json → Bool
  | none, none => true
  | some left, some right => Json.same left right
  | _, _ => false

def sameMetadata : Option Object → Option Object → Bool
  | none, none => true
  | some left, some right => Json.same (.obj left) (.obj right)
  | _, _ => false

def pageMetadata (page : Option AnnotationPage) : Option Object := page.map (·.metadata)

def pageId (page : Option AnnotationPage) : String :=
  match page with
  | none => ""
  | some page => match Json.field page.metadata "id" with
      | .str id => Text.trim Text.scriptSpace id
      | _ => ""

/-! ## Patches -/

structure ItemChange where
  id : String
  before : Option Json
  after : Option Json
  deriving DecidableEq, Repr

/-- A history entry: changed annotations, and the metadata and order if they changed. -/
structure PagePatch where
  changes : List ItemChange
  metadataBefore : Option Object
  metadataAfter : Option Object
  orderBefore : Option (List String)
  orderAfter : Option (List String)
  deriving DecidableEq, Repr

def createPagePatch (beforePage afterPage : Option AnnotationPage) : PagePatch :=
  let beforeItems := itemsById beforePage
  let afterItems := itemsById afterPage
  let ids := (Assoc.keys beforeItems ++ Assoc.keys afterItems).eraseDups
  let changes := ids.filterMap fun id =>
    let before := Assoc.get beforeItems id
    let after := Assoc.get afterItems id
    if sameOptional before after then none else some { id, before, after }
  let metadataChanged := !sameMetadata (pageMetadata beforePage) (pageMetadata afterPage)
  let orderChanged := itemIds beforePage ≠ itemIds afterPage
  { changes
    metadataBefore := if metadataChanged then pageMetadata beforePage else none
    metadataAfter := if metadataChanged then pageMetadata afterPage else none
    orderBefore := if orderChanged then some (itemIds beforePage) else none
    orderAfter := if orderChanged then some (itemIds afterPage) else none }

def patchIsEmpty (patch : PagePatch) : Bool :=
  patch.changes.isEmpty && patch.metadataBefore.isNone && patch.orderBefore.isNone

inductive Direction where
  | forward
  | backward
  deriving DecidableEq, Repr

def firstById : List String → List (Option Json) → List Json
  | _, [] => []
  | seen, none :: rest => firstById seen rest
  | seen, some item :: rest =>
      if annotationId item ∈ seen then firstById seen rest
      else item :: firstById (annotationId item :: seen) rest

def applyPagePatch (page : AnnotationPage) (patch : PagePatch) (direction : Direction) :
    AnnotationPage :=
  let pick {α : Type} (after before : α) := match direction with
    | .forward => after
    | .backward => before
  let items := patch.changes.foldl (fun items change =>
    match pick change.after change.before with
    | some value => Assoc.set items change.id value
    | none => Assoc.erase items change.id) (itemsById (some page))
  let nextItems := match pick patch.orderAfter patch.orderBefore with
    | some wantedOrder =>
        wantedOrder.filterMap (Assoc.get items) ++
          Assoc.values (items.filter fun entry => entry.1 ∉ wantedOrder)
    | none =>
        let current := firstById [] (page.items.map fun item =>
          if annotationId item = "" then none else Assoc.get items (annotationId item))
        current ++ Assoc.values (items.filter fun entry => entry.1 ∉ current.map annotationId)
  { metadata := (pick patch.metadataAfter patch.metadataBefore).getD page.metadata
    items := nextItems }

def pagesEqual (left right : Option AnnotationPage) : Bool :=
  left == right || patchIsEmpty (createPagePatch left right)

def pageLocallyTouchedIds (basePage draftPage : Option AnnotationPage) : List String :=
  let baseItems := itemsById basePage
  let draftItems := itemsById draftPage
  let contentTouched := ((Assoc.keys baseItems ++ Assoc.keys draftItems).eraseDups).filter fun id =>
    !sameOptional (Assoc.get baseItems id) (Assoc.get draftItems id)
  let orderTouched := orderTouchedIds (itemIds basePage) (itemIds draftPage)
  let metadataTouched :=
    if sameMetadata (pageMetadata basePage) (pageMetadata draftPage) then []
    else
      let id := if pageId basePage = "" then pageId draftPage else pageId basePage
      if id = "" then [] else [id]
  (contentTouched ++ orderTouched ++ metadataTouched).eraseDups

/-! ## Merging -/

structure OrderMerge where
  conflictIds : List String
  disagreementIds : List String
  ids : List String
  localTouched : List String

def mergeReadingOrder (basePage draftPage remotePage : AnnotationPage) : OrderMerge :=
  let baseIds := itemIds (some basePage)
  let draftIds := itemIds (some draftPage)
  let remoteIds := itemIds (some remotePage)
  let localTouched := orderTouchedIds baseIds draftIds
  let remoteTouched := orderTouchedIds baseIds remoteIds
  let commonBaseIds := (baseIds.filter fun id => id ∈ draftIds ∧ id ∈ remoteIds).eraseDups
  let draftNeighbours := orderNeighbours (draftIds.filter (· ∈ commonBaseIds))
  let remoteNeighbours := orderNeighbours (remoteIds.filter (· ∈ commonBaseIds))
  let disagreementIds := commonBaseIds.filter fun id =>
    Assoc.get draftNeighbours id ≠ Assoc.get remoteNeighbours id
  let locallyReordered := localTouched.filter (· ∈ remoteIds)
  let reordered := placeIdsAtDraftAnchors remoteIds draftIds locallyReordered
  let localOnly := (draftIds.filter (· ∉ reordered)).eraseDups
  { conflictIds := localTouched.filter fun id => id ∈ remoteTouched ∧ id ∈ disagreementIds
    disagreementIds
    ids := placeIdsAtDraftAnchors reordered draftIds localOnly
    localTouched }

structure MergeState where
  mergedItems : List (String × Json)
  pendingRemoteIds : List String
  conflictIds : List String

def insertId (ids : List String) (id : String) : List String :=
  if id ∈ ids then ids else ids ++ [id]

def mergeItem (baseItems draftItems remoteItems : List (String × Json)) (orderMerge : OrderMerge)
    (priorPending : List String) (state : MergeState) (id : String) : MergeState :=
  let base := Assoc.get baseItems id
  let draft := Assoc.get draftItems id
  let remote := Assoc.get remoteItems id
  let state :=
    if !sameOptional base draft then
      let mergedItems := match draft with
        | some draft => Assoc.set state.mergedItems id draft
        | none => state.mergedItems
      -- A repeated poll of the same remote revision must not clear an unresolved conflict.
      let pendingRemoteIds :=
        if !sameOptional draft remote ∧ (!sameOptional base remote ∨ id ∈ priorPending) then
          insertId state.pendingRemoteIds id
        else state.pendingRemoteIds
      let conflictIds :=
        if !sameOptional draft remote ∧ !sameOptional base remote then insertId state.conflictIds id
        else state.conflictIds
      { mergedItems, pendingRemoteIds, conflictIds }
    else match remote with
      | some remote => { state with mergedItems := Assoc.set state.mergedItems id remote }
      | none => state
  if id ∈ orderMerge.conflictIds ∨ (id ∈ priorPending ∧ id ∈ orderMerge.disagreementIds) then
    { state with pendingRemoteIds := insertId state.pendingRemoteIds id }
  else state

structure DraftMerge where
  conflictIds : List String
  page : AnnotationPage
  pendingRemoteIds : List String

def mergeDraftOntoRemote (basePage draftPage remotePage : AnnotationPage)
    (priorPendingIds : List String) : DraftMerge :=
  let orderMerge := mergeReadingOrder basePage draftPage remotePage
  let state := orderMerge.ids.foldl
    (mergeItem (itemsById (some basePage)) (itemsById (some draftPage))
      (itemsById (some remotePage)) orderMerge priorPendingIds)
    { mergedItems := [], pendingRemoteIds := [], conflictIds := orderMerge.conflictIds }
  { conflictIds := state.conflictIds
    page := { metadata := remotePage.metadata, items := Assoc.values state.mergedItems }
    pendingRemoteIds := state.pendingRemoteIds }

/-! ## Sessions -/

inductive ConflictKind where
  | save
  | transform
  deriving DecidableEq, Repr

inductive SessionStatus where
  | ready
  | loading
  | saving
  | conflict
  | error
  deriving DecidableEq, Repr

structure EditorSession where
  basePage : Option AnnotationPage
  conflictKind : Option ConflictKind
  dirty : Bool
  draftPage : Option AnnotationPage
  error : Option String
  pendingRemoteIds : List String
  redoStack : List PagePatch
  revision : String
  status : SessionStatus
  undoStack : List PagePatch
  deriving DecidableEq, Repr

def historyLimit : Nat := 100

/-- Push onto a history that keeps its last hundred entries. -/
def pushHistory (stack : List PagePatch) (patch : PagePatch) : List PagePatch :=
  stack.drop (stack.length - (historyLimit - 1)) ++ [patch]

def digitsIn (radix : Nat) (chars : List Char) : Option Nat :=
  if chars = [] then none
  else chars.foldl (fun value c => do
    let value ← value
    let digit ←
      if c.isDigit then some (c.toNat - '0'.toNat)
      else if 'a' ≤ c ∧ c ≤ 'f' then some (c.toNat - 'a'.toNat + 10)
      else if 'A' ≤ c ∧ c ≤ 'F' then some (c.toNat - 'A'.toNat + 10)
      else none
    if digit < radix then some (value * radix + digit) else none) (some 0)

/-- `BigInt` of a string, with `none` where it throws. -/
def bigInt (text : String) : Option Int :=
  match Text.trimChars Text.scriptSpace text.toList with
  | [] => some 0
  | '0' :: 'x' :: digits | '0' :: 'X' :: digits => (digitsIn 16 digits).map Int.ofNat
  | '0' :: 'o' :: digits | '0' :: 'O' :: digits => (digitsIn 8 digits).map Int.ofNat
  | '0' :: 'b' :: digits | '0' :: 'B' :: digits => (digitsIn 2 digits).map Int.ofNat
  | '-' :: digits => (digitsIn 10 digits).map fun n => -Int.ofNat n
  | '+' :: digits => (digitsIn 10 digits).map Int.ofNat
  | digits => (digitsIn 10 digits).map Int.ofNat

def revisionIsOlder (candidate current : String) : Bool :=
  if candidate = "" ∨ current = "" then false
  else match bigInt candidate, bigInt current with
    | some candidate, some current => candidate < current
    | _, _ => false

def pendingIdsForDraft (session : EditorSession) (draftPage : AnnotationPage) : List String :=
  let touched := pageLocallyTouchedIds session.basePage (some draftPage)
  session.pendingRemoteIds.filter (· ∈ touched)

def draftLifecycle (session : EditorSession) (draftPage : AnnotationPage) : EditorSession :=
  let dirty := !pagesEqual session.basePage (some draftPage)
  let pendingRemoteIds := pendingIdsForDraft session draftPage
  let resolvedConflict := session.status = .conflict ∧
    (!dirty ∨ (session.conflictKind = some .transform ∧ pendingRemoteIds = []))
  { session with
    conflictKind := if resolvedConflict then none else session.conflictKind
    dirty
    error := if resolvedConflict then none else session.error
    pendingRemoteIds
    status := if resolvedConflict then .ready else session.status }

def historyForRebasedDraft (remotePage draftPage : AnnotationPage) : List PagePatch :=
  if pagesEqual (some remotePage) (some draftPage) then []
  else [createPagePatch (some remotePage) (some draftPage)]

def createEditorSession (page : Option AnnotationPage) (revision : String) : EditorSession :=
  { basePage := page, conflictKind := none, dirty := false, draftPage := page, error := none
    pendingRemoteIds := [], redoStack := [], revision, status := .ready, undoStack := [] }

/-- Record one user-visible edit. A change without effect leaves the history alone. -/
def editSession (session : EditorSession) (nextPage : Option AnnotationPage) : EditorSession :=
  match nextPage with
  | none => session
  | some nextPage =>
      let patch := createPagePatch session.draftPage (some nextPage)
      if patchIsEmpty patch then session
      else
        let lifecycle := draftLifecycle session nextPage
        { lifecycle with
          draftPage := some nextPage
          error := if lifecycle.status = .conflict then lifecycle.error else none
          redoStack := []
          status := if session.status = .saving then .saving
            else if lifecycle.status = .conflict then .conflict else .ready
          undoStack := if session.draftPage.isSome then pushHistory session.undoStack patch
            else session.undoStack }

def undoSession (session : EditorSession) : EditorSession :=
  match session.draftPage, session.undoStack.getLast? with
  | some draft, some patch =>
      let previous := applyPagePatch draft patch .backward
      { draftLifecycle session previous with
        draftPage := some previous
        redoStack := session.redoStack ++ [patch]
        undoStack := session.undoStack.dropLast }
  | _, _ => session

def redoSession (session : EditorSession) : EditorSession :=
  match session.draftPage, session.redoStack.getLast? with
  | some draft, some patch =>
      let next := applyPagePatch draft patch .forward
      { draftLifecycle session next with
        draftPage := some next
        redoStack := session.redoStack.dropLast
        undoStack := pushHistory session.undoStack patch }
  | _, _ => session

/-- Rebase a draft onto a freshly loaded server page. Another page's resource
replaces the session and an older revision is ignored. -/
def rebaseSession (session : EditorSession) (remotePage : Option AnnotationPage)
    (revision : Option String) : EditorSession :=
  let revision := revision.getD session.revision
  match remotePage with
  | none => session
  | some remotePage => match session.basePage, session.draftPage with
      | some basePage, some draftPage =>
          let currentPageId :=
            if pageId (some basePage) = "" then pageId (some draftPage) else pageId (some basePage)
          let remotePageId := pageId (some remotePage)
          if currentPageId ≠ "" ∧ remotePageId ≠ "" ∧ currentPageId ≠ remotePageId then
            createEditorSession (some remotePage) revision
          else if revisionIsOlder revision session.revision then session
          else
            let merged := mergeDraftOntoRemote basePage draftPage remotePage session.pendingRemoteIds
            let currentTouched := pageLocallyTouchedIds (some remotePage) (some merged.page)
            { session with
              basePage := some remotePage
              dirty := !pagesEqual (some remotePage) (some merged.page)
              draftPage := some merged.page
              error := none
              pendingRemoteIds := merged.pendingRemoteIds.filter (· ∈ currentTouched)
              redoStack := []
              revision
              status := if session.status = .saving then .saving else .ready
              conflictKind := none
              undoStack := historyForRebasedDraft remotePage merged.page }
      | _, _ => createEditorSession (some remotePage) revision

def applyRemoteAnnotation (session : EditorSession) (item : Json) : EditorSession :=
  let id := annotationId item
  match session.basePage, session.draftPage with
  | some basePage, some draftPage =>
      if id = "" then session
      else
        let baseItems := itemsById (some basePage)
        let draftItems := itemsById (some draftPage)
        let base := Assoc.get baseItems id
        let draft := Assoc.get draftItems id
        let locallyChanged := !sameOptional base draft
        let nextDraftItems := if locallyChanged then draftItems else Assoc.set draftItems id item
        let pending :=
          if locallyChanged ∧ !sameOptional draft (some item) ∧
              (!sameOptional base (some item) ∨ id ∈ session.pendingRemoteIds) then
            insertId session.pendingRemoteIds.eraseDups id
          else session.pendingRemoteIds.eraseDups.filter (· ≠ id)
        let nextBasePage : AnnotationPage :=
          { basePage with items := Assoc.values (Assoc.set baseItems id item) }
        let nextDraftPage : AnnotationPage := { draftPage with items := Assoc.values nextDraftItems }
        { draftLifecycle { session with basePage := some nextBasePage, pendingRemoteIds := pending }
            nextDraftPage with
          draftPage := some nextDraftPage
          redoStack := []
          undoStack := historyForRebasedDraft nextBasePage nextDraftPage }
  | _, _ => session

/-- Accept the result of a save. The submitted page and revision identify what the
server committed; the current draft is carried onto it. An outer `none` is an
argument left out. -/
def acceptSavedSession (session : EditorSession) (savedPage : Option AnnotationPage)
    (revision : String) (submittedPage : Option (Option AnnotationPage))
    (submittedRevision : Option String) : EditorSession :=
  let submittedPage := submittedPage.getD session.draftPage
  let submittedRevision := submittedRevision.getD session.revision
  let settleStaleResponse :=
    if session.status = .saving then { session with error := none, status := .ready } else session
  match savedPage.or (submittedPage.or session.draftPage) with
  | none => createEditorSession none revision
  | some page =>
      let submittedPageId := pageId submittedPage
      let savedPageId := pageId (some page)
      if submittedPageId ≠ "" ∧ savedPageId ≠ "" ∧ submittedPageId ≠ savedPageId then
        settleStaleResponse
      else if revisionIsOlder revision session.revision then settleStaleResponse
      else if submittedRevision ≠ "" ∧ session.revision ≠ submittedRevision then settleStaleResponse
      else match session.draftPage, submittedPage with
        | some draftPage, some submittedPage =>
            if pagesEqual (some draftPage) (some submittedPage) then
              createEditorSession (some page) revision
            else
              let merged := mergeDraftOntoRemote submittedPage draftPage page session.pendingRemoteIds
              { session with
                basePage := some page
                dirty := !pagesEqual (some page) (some merged.page)
                draftPage := some merged.page
                error := none
                conflictKind := none
                pendingRemoteIds := merged.pendingRemoteIds
                redoStack := []
                revision
                status := .ready
                undoStack := historyForRebasedDraft page merged.page }
        | _, _ => createEditorSession (some page) revision

def structuralConflictMessage : String :=
  "The draft changed while this structural operation was running. Your newer draft was preserved; retry the operation."

def transformConflictMessage : String :=
  "The draft changed while this operation was running. Non-overlapping results were applied and newer overlapping edits were preserved."

/-- Apply a full-page operation computed from `submittedPage` onto the latest draft.
Changes made while it ran win; overlapping ones become pending conflicts. -/
def applyPageTransformSession (session : EditorSession)
    (submittedPage transformedPage : Option AnnotationPage) (affectedIds : List String)
    (atomic : Bool) : EditorSession :=
  match session.draftPage, submittedPage, transformedPage with
  | some draftPage, some submittedPage, some transformedPage =>
      let expectedPageId := pageId (some submittedPage)
      -- The session has moved to another page since the operation was started.
      if expectedPageId ≠ "" ∧
          (pageId (some transformedPage) ≠ expectedPageId ∨
            pageId (some draftPage) ≠ expectedPageId) then
        session
      else if pagesEqual (some draftPage) (some submittedPage) then
        editSession session (some transformedPage)
      else
        let changedSinceSubmission := pageLocallyTouchedIds (some submittedPage) (some draftPage)
        let transformedIds := pageLocallyTouchedIds (some submittedPage) (some transformedPage)
        let affectedOverlapIds :=
          ((affectedIds ++ transformedIds).eraseDups).filter (· ∈ changedSinceSubmission)
        -- An atomic operation that overlaps newer edits is not applied at all.
        if atomic ∧ affectedOverlapIds ≠ [] then
          let currentTouched := pageLocallyTouchedIds session.basePage (some draftPage)
          let preserveSaveConflict := session.status = .conflict ∧ session.conflictKind = some .save
          { session with
            conflictKind := some (if preserveSaveConflict then .save else .transform)
            error := if preserveSaveConflict then session.error else some structuralConflictMessage
            pendingRemoteIds :=
              (affectedOverlapIds.filter (· ∈ currentTouched)).foldl insertId
                session.pendingRemoteIds.eraseDups
            status := .conflict }
        else
          let merged :=
            mergeDraftOntoRemote submittedPage draftPage transformedPage session.pendingRemoteIds
          let currentMetadataChanged :=
            !sameMetadata (some submittedPage.metadata) (some draftPage.metadata)
          let transformedMetadataChanged :=
            !sameMetadata (some submittedPage.metadata) (some transformedPage.metadata)
          let metadataConflict := currentMetadataChanged && transformedMetadataChanged &&
            !sameMetadata (some draftPage.metadata) (some transformedPage.metadata)
          -- Metadata is merged as a whole: a local change wins.
          let metadata := if currentMetadataChanged then draftPage.metadata
            else transformedPage.metadata
          let nextPage : AnnotationPage := { metadata, items := merged.page.items }
          let pending := (session.pendingRemoteIds ++ merged.pendingRemoteIds).eraseDups
          let pendingRemoteIds :=
            if metadataConflict ∧ expectedPageId ≠ "" then insertId pending expectedPageId else pending
          let transformConflictIds :=
            if metadataConflict ∧ expectedPageId ≠ "" then insertId merged.conflictIds expectedPageId
            else merged.conflictIds
          let patch := createPagePatch (some draftPage) (some nextPage)
          let locallyTouched := pageLocallyTouchedIds session.basePage (some nextPage)
          let retainedPendingRemoteIds := pendingRemoteIds.filter (· ∈ locallyTouched)
          let lifecycle :=
            draftLifecycle { session with pendingRemoteIds := retainedPendingRemoteIds } nextPage
          let preservedConflictKind :=
            if lifecycle.status = .conflict then lifecycle.conflictKind else none
          let conflictKind := preservedConflictKind.or
            (if transformConflictIds ≠ [] then some .transform else none)
          { lifecycle with
            draftPage := some nextPage
            error := if preservedConflictKind.isSome then lifecycle.error
              else if transformConflictIds ≠ [] then some transformConflictMessage else none
            conflictKind
            pendingRemoteIds := retainedPendingRemoteIds
            redoStack := []
            status := if session.status = .saving then .saving
              else if conflictKind.isSome then .conflict else .ready
            undoStack := if patchIsEmpty patch then session.undoStack
              else pushHistory session.undoStack patch }
  | _, _, _ => session

/-! ## The reducer -/

inductive SessionAction where
  | edit (page : Option AnnotationPage)
  | undo
  | redo
  | loadStart
  | rebase (page : Option AnnotationPage) (revision : Option String)
  | remoteItem (item : Json)
  | saveStart
  | saveConflict (error : Option String)
  | saveError (error : Option String)
  | dismissError
  | saved (page : Option AnnotationPage) (revision : String)
      (submittedPage : Option (Option AnnotationPage)) (submittedRevision : Option String)
  | transformResult (submittedPage page : Option AnnotationPage) (affectedIds : List String)
    (atomic : Bool)
  | reset (page : Option AnnotationPage) (revision : String)

def lifecycleSession (session : EditorSession) (status : SessionStatus) (error : Option String) :
    EditorSession :=
  { session with error, status }

/-- One reducer step. `loaded` is the source's second name for `rebase`,
`load-error` for `save-error`; `remoteItem` is its `remote-annotation`. -/
def editorSessionReducer (session : EditorSession) : SessionAction → EditorSession
  | .edit page => editSession session page
  | .undo => undoSession session
  | .redo => redoSession session
  | .loadStart => lifecycleSession session .loading none
  | .rebase page revision => rebaseSession session page revision
  | .remoteItem item => applyRemoteAnnotation session item
  | .saveStart =>
      if session.dirty then lifecycleSession session .saving none
      else lifecycleSession session .ready none
  | .saveConflict error => { lifecycleSession session .conflict error with conflictKind := some .save }
  | .saveError error => { lifecycleSession session .error error with conflictKind := none }
  | .dismissError => { lifecycleSession session .ready none with conflictKind := none }
  | .saved page revision submittedPage submittedRevision =>
      acceptSavedSession session page revision submittedPage submittedRevision
  | .transformResult submittedPage page affectedIds atomic =>
      applyPageTransformSession session submittedPage page affectedIds atomic
  | .reset page revision => createEditorSession page revision

end Scribe.Editor
