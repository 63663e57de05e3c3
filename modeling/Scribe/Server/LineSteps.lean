import Scribe.Data.Patch
import Scribe.Server.Saving

/-! The loop over the existing lines.

A step reads its line and the words of that line, and writes the line and, when it
scales them, the words. No line writes what another one reads, so every step can be
read off the proposed page; only the identifiers in use and the two budgets pass
from line to line.
-/

set_option autoImplicit false

namespace Scribe.Server

open Iiif Attempt

/-- What the step of one line reads of the two pages. -/
structure LineView where
  baseLine : Located
  proposedLine : Located
  baseWords : List Located
  proposedWords : List Located

def ReconcileInput.view (input : ReconcileInput) (items : List Json) (lineID : String) : LineView where
  baseLine := lookup input.index.baseLines lineID
  proposedLine := (lookup input.index.proposedLines lineID).refresh items
  baseWords := input.baseWordsByLine lineID
  proposedWords := input.ownedProposedWords items lineID

namespace LineView

def decision (view : LineView) : LineDecision :=
  decideLine view.baseLine view.proposedLine view.baseWords view.proposedWords

/-- The proposed line; a moved one loses the identity of its old target. -/
def placedLine (view : LineView) : Located :=
  if sameBox view.baseLine view.proposedLine then view.proposedLine
  else { view.proposedLine with anno := clearMutableTargetResourceIDs view.proposedLine.anno }

def tokens (view : LineView) : List String := Go.fields view.proposedLine.text

def savedLine (view : LineView) : Object :=
  match view.decision with
  | .tokenEdit => setAnnotationText view.placedLine.anno (Go.join view.tokens)
  | .rewriteText => setAnnotationText view.placedLine.anno
    (normalizedAnnotationTexts view.proposedWords)
  | _ => view.placedLine.anno

def tokenEdit (view : LineView) (input : ReconcileInput) : TokenEdit where
  ext := input.ext
  pageID := input.pageID
  canvasURI := input.identity.canvasURI
  expectedRevision := input.expectedRevision
  line := view.placedLine
  baseWords := view.baseWords
  proposedWords := keyed view.proposedWords
  count := view.tokens.length

def scaledWord (view : LineView) (input : ReconcileInput) (word : Located) : Except String Object := do
  let box ← proportionalWordBox view.baseLine.box view.proposedLine.box
    (lookup input.index.baseWords word.id).box
  retargetExistingWord input.ext word.anno input.identity.canvasURI box

def scaledWords (view : LineView) (input : ReconcileInput) : List Object :=
  (view.proposedWords.mapM (view.scaledWord input)).toOption.getD []

def writes (view : LineView) (input : ReconcileInput) : List (Nat × Json) :=
  (view.proposedLine.index, .obj view.savedLine) ::
    match view.decision with
    | .rescale => (view.proposedWords.map Located.index).zip ((view.scaledWords input).map Json.obj)
    | _ => []

end LineView

/-- One successful step. -/
inductive LineStep (input : ReconcileInput) (lineID : String) (view : LineView)
    (state : ReconcileState) : ReconcileState → Prop where
  | settle (decided : view.decision ≠ .conflict ∧ view.decision ≠ .tokenEdit)
      (scales : view.decision = .rescale →
        view.proposedWords.mapM (view.scaledWord input) = .ok (view.scaledWords input)) :
      LineStep input lineID view state
        { state with items := Patch.apply state.items (view.writes input) }
  | edit {bytes cells : Nat} {progress : TokenProgress} (decided : view.decision = .tokenEdit)
      (fits : input.proposedCount + view.tokens.length ≤ maxAnnotationsPerPage + view.baseWords.length)
      (estimated : estimateReconciledTokenBytes state.estimatedPageBytes view.placedLine
        view.proposedWords
        view.tokens = .ok bytes)
      (edited : reconcileLineTokens (view.tokenEdit input) view.tokens state.usedIDs
        state.lcsCellsRemaining =
        .ok (progress, cells)) :
      LineStep input lineID view state
        { items := Patch.apply state.items (view.writes input)
          usedIDs := progress.usedIDs
          lcsCellsRemaining := cells
          estimatedPageBytes := bytes
          removeWordIDs := state.removeWordIDs ++ view.baseWords.map (·.id) ++ progress.removed
          generatedByLine := Assoc.set state.generatedByLine lineID progress.generated }

theorem withContext_ok_iff {α : Type} {context : String} {attempt : Except String α} {value : α} :
    withContext context attempt = .ok value ↔ attempt = .ok value := by
  cases attempt <;> simp [withContext]

theorem LineView.placedLine_index (view : LineView) :
    view.placedLine.index = view.proposedLine.index := by
  unfold LineView.placedLine
  split <;> rfl

theorem LineView.placedLine_box (view : LineView) : view.placedLine.box = view.proposedLine.box := by
  unfold LineView.placedLine
  split <;> rfl

theorem LineView.placedLine_field (view : LineView) {key : String} (apart : "target" ≠ key) :
    Json.field view.placedLine.anno key = Json.field view.proposedLine.anno key := by
  unfold LineView.placedLine
  split
  · rfl
  · exact field_clearMutable_of_ne _ apart

theorem LineView.placedLine_text (view : LineView) : view.placedLine.text = view.proposedLine.text :=
  extractAnnotationText_congr (view.placedLine_field (by decide))

theorem LineView.placedLine_id (view : LineView) : view.placedLine.id = view.proposedLine.id :=
  annStringValue_congr (view.placedLine_field (by decide))

section
variable {edit other : TokenEdit} {proposedWords : List (String × Located)}
  (isOther : other = { edit with proposedWords := proposedWords })
  (same : ∀ word ∈ edit.baseWords, Assoc.get edit.proposedWords word.id = Assoc.get
    proposedWords word.id)
include isOther same

theorem reconcileToken_congr : reconcileToken edit = reconcileToken other := by
  subst isOther
  funext matches_ progress entry
  obtain ⟨token, index⟩ := entry
  unfold reconcileToken
  simp only
  cases found : (matches_.reverse.find? (·.tokenIndex = index)).bind fun found =>
    edit.baseWords[found.baseIndex]? with
  | none => rfl
  | some word =>
    obtain ⟨pair, _, place⟩ := Option.bind_eq_some_iff.mp found
    simp only [same word (List.mem_of_getElem? place)]

theorem reconcileLineTokens_congr : reconcileLineTokens edit = reconcileLineTokens other := by
  have each := reconcileToken_congr isOther same
  subst isOther
  funext tokens used cells
  simp only [reconcileLineTokens, each]

end

theorem reconcileLine_eq (input : ReconcileInput) (state : ReconcileState) (lineID : String) :
    reconcileLine input state lineID =
      let view := input.view state.items lineID
      let placed := { state with items := writeAt state.items view.placedLine view.placedLine.anno }
      match view.decision with
      | .conflict =>
          throw ("line " ++ Go.quote lineID ++
            " changes both line text and its word membership without a complete synchronized word view")
      | .explicitWords => pure placed
      | .tokenEdit => editTokens input lineID view.placedLine view.baseWords view.proposedWords placed
      | .rewriteText => pure { placed with
          items := writeAt placed.items view.placedLine
            (setAnnotationText view.placedLine.anno (normalizedAnnotationTexts view.proposedWords)) }
      | .keep => pure placed
      | .rescale =>
          view.proposedWords.foldlM (rescaleWord input lineID view.baseLine view.placedLine)
            placed.items >>=
            fun items => pure { placed with items := items } := rfl

section
variable {input : ReconcileInput} {state next : ReconcileState} {lineID : String} {view : LineView}

theorem editTokens_ok_iff (known : ∀ word ∈ view.baseWords,
      Assoc.get (input.refreshedWords state.items) word.id =
        Assoc.get (keyed view.proposedWords) word.id) :
    editTokens input lineID view.placedLine view.baseWords view.proposedWords state = .ok next ↔
      input.proposedCount + view.tokens.length ≤ maxAnnotationsPerPage + view.baseWords.length ∧
      ∃ bytes progress cells,
        estimateReconciledTokenBytes state.estimatedPageBytes view.placedLine view.proposedWords
          view.tokens =
          .ok bytes ∧
        reconcileLineTokens (view.tokenEdit input) view.tokens state.usedIDs state.lcsCellsRemaining =
          .ok (progress, cells) ∧
        next =
          { items := writeAt state.items view.placedLine (setAnnotationText view.placedLine.anno
            (Go.join view.tokens))
            usedIDs := progress.usedIDs
            lcsCellsRemaining := cells
            estimatedPageBytes := bytes
            removeWordIDs := state.removeWordIDs ++ view.baseWords.map (·.id) ++ progress.removed
            generatedByLine := Assoc.set state.generatedByLine lineID progress.generated } := by
  have sameTokens : Go.fields view.placedLine.text = view.tokens := by rw [view.placedLine_text]; rfl
  -- Of the refreshed words only those of the line itself are looked up.
  have sameEdit : reconcileLineTokens
      { ext := input.ext, pageID := input.pageID, canvasURI := input.identity.canvasURI
        expectedRevision := input.expectedRevision, line := view.placedLine,
          baseWords := view.baseWords
        proposedWords := input.refreshedWords state.items, count := view.tokens.length } =
      reconcileLineTokens (view.tokenEdit input) :=
    @reconcileLineTokens_congr _ _ (keyed view.proposedWords) rfl known
  unfold editTokens
  simp only [sameTokens, sameEdit]
  by_cases tooMany : input.proposedCount + view.tokens.length > maxAnnotationsPerPage +
    view.baseWords.length
  · have refused : ¬ input.proposedCount + view.tokens.length ≤
        maxAnnotationsPerPage + view.baseWords.length := by
      omega
    simp only [tooMany, if_true, refused, false_and, iff_false]
    exact fun done => throw_ne_ok (bind_ok_iff.mp done).choose_spec.1
  · have fits : input.proposedCount + view.tokens.length ≤
      maxAnnotationsPerPage + view.baseWords.length := by omega
    simp only [tooMany, if_false, fits, true_and, bind_ok_iff, withContext_ok_iff,
      pure_ok_iff, Prod.exists]
    constructor
    · rintro ⟨bytes, estimated, progress, cells, edited, rfl⟩
      exact ⟨bytes, progress, cells, estimated, edited, rfl⟩
    · rintro ⟨bytes, progress, cells, estimated, edited, rfl⟩
      exact ⟨bytes, estimated, progress, cells, edited, rfl⟩

theorem annotationAt_congr {items others : List Json} {i : Nat} (same : items[i]? = others[i]?) :
    annotationAt items i = annotationAt others i := by
  simp only [annotationAt, same]

theorem rescaleWords_ok_iff {items result : List Json}
    (places : (view.proposedWords.map Located.index).Nodup)
    (current : ∀ word ∈ view.proposedWords, annotationAt items word.index = word.anno) :
    view.proposedWords.foldlM (rescaleWord input lineID view.baseLine view.placedLine)
      items = .ok result ↔
      view.proposedWords.mapM (view.scaledWord input) = .ok (view.scaledWords input) ∧
        result = Patch.apply items
          ((view.proposedWords.map Located.index).zip ((view.scaledWords input).map Json.obj)) := by
  have each : ∀ word ∈ view.proposedWords, ∀ now then_ : List Json,
      now[word.index]? = items[word.index]? →
      (rescaleWord input lineID view.baseLine view.placedLine now word = .ok then_ ↔
        ∃ new, Json.obj <$> view.scaledWord input word = .ok new ∧
            then_ = now.set word.index new) := by
    intro word member now then_ same
    have isWord : annotationAt now word.index = word.anno := by
      rw [annotationAt_congr same, current word member]
    simp only [rescaleWord, isWord, writeAt, bind_ok_iff, withContext_ok_iff, pure_ok_iff,
      map_ok_iff, LineView.scaledWord, view.placedLine_box]
    constructor
    · rintro ⟨box, isBox, anno, made, rfl⟩
      exact ⟨.obj anno, ⟨anno, ⟨box, isBox, made⟩, rfl⟩, rfl⟩
    · rintro ⟨_, ⟨anno, ⟨box, isBox, made⟩, rfl⟩, rfl⟩
      exact ⟨box, isBox, anno, made, rfl⟩
  rw [Patch.foldlM_ok_iff places each]
  simp only [mapM_map_ok_iff]
  constructor
  · rintro ⟨_, ⟨annos, all, rfl⟩, rfl⟩
    have isScaled : view.scaledWords input = annos := by
      simp [LineView.scaledWords, all, Except.toOption]
    rw [isScaled]
    exact ⟨all, rfl⟩
  · rintro ⟨all, rfl⟩
    exact ⟨_, ⟨_, all, rfl⟩, rfl⟩

theorem mem_ownedProposedWords {items : List Json} {word : Located} :
    word ∈ input.ownedProposedWords items lineID ↔
      ∃ proposed,
        (proposed ∈ proposedOwnedWords (input.baseWordsByLine lineID) input.index.proposedWords ∨
        proposed ∈ input.newWords lineID) ∧ proposed.refresh items = word := by
  unfold ReconcileInput.ownedProposedWords sortReconciliationWords
  rw [(List.perm_insertionSort withinLine _).mem_iff]
  simp only [List.mem_map, List.mem_append]

theorem lineStep_settled_iff (notConflict : view.decision ≠ .conflict)
    (notEdit : view.decision ≠ .tokenEdit) : LineStep input lineID view state next ↔
      (view.decision = .rescale → view.proposedWords.mapM (view.scaledWord input) =
        .ok (view.scaledWords input)) ∧
      next = { state with items := Patch.apply state.items (view.writes input) } := by
  constructor
  · intro step
    cases step with
    | settle _ scales => exact ⟨scales, rfl⟩
    | edit decided => exact absurd decided notEdit
  · rintro ⟨scales, rfl⟩
    exact .settle ⟨notConflict, notEdit⟩ scales

theorem lineStep_edit_iff (decided : view.decision = .tokenEdit) :
    LineStep input lineID view state next ↔
      input.proposedCount + view.tokens.length ≤ maxAnnotationsPerPage + view.baseWords.length ∧
      ∃ bytes progress cells,
        estimateReconciledTokenBytes state.estimatedPageBytes view.placedLine view.proposedWords
          view.tokens =
          .ok bytes ∧
        reconcileLineTokens (view.tokenEdit input) view.tokens state.usedIDs state.lcsCellsRemaining =
          .ok (progress, cells) ∧
        next =
          { items := Patch.apply state.items (view.writes input)
            usedIDs := progress.usedIDs
            lcsCellsRemaining := cells
            estimatedPageBytes := bytes
            removeWordIDs := state.removeWordIDs ++ view.baseWords.map (·.id) ++ progress.removed
            generatedByLine := Assoc.set state.generatedByLine lineID progress.generated } := by
  constructor
  · intro step
    cases step with
    | settle other => exact absurd decided other.2
    | edit _ fits estimated edited => exact ⟨fits, _, _, _, estimated, edited, rfl⟩
  · rintro ⟨fits, bytes, progress, cells, estimated, edited, rfl⟩
    exact .edit decided fits estimated edited

theorem LineView.apply_writes (items : List Json) (notRescale : view.decision ≠ .rescale) :
    Patch.apply items (view.writes input) = items.set view.proposedLine.index
      (.obj view.savedLine) := by
  unfold LineView.writes
  split
  · rename_i isRescale
    exact absurd isRescale notRescale
  · rfl

/-- A step does what the decision for its line says. -/
theorem reconcileLine_ok_iff (isView : input.view state.items lineID = view)
    (places : view.decision = .rescale →
      (view.proposedLine.index :: view.proposedWords.map Located.index).Nodup)
    (known : ∀ word ∈ view.baseWords,
      Assoc.get (input.refreshedWords (writeAt state.items view.placedLine view.placedLine.anno))
        word.id =
        Assoc.get (keyed view.proposedWords) word.id) :
    reconcileLine input state lineID = .ok next ↔ LineStep input lineID view state next := by
  have placed : ∀ items anno, writeAt items view.placedLine anno = items.set view.proposedLine.index
      (.obj anno) := by
    intro items anno
    rw [writeAt, view.placedLine_index]
  -- The branches that write the line and nothing else.
  have plain : view.decision ≠ .conflict → view.decision ≠ .tokenEdit → view.decision ≠ .rescale →
      ((pure { state with items := state.items.set view.proposedLine.index (.obj view.savedLine) } :
        Except String ReconcileState) = .ok next ↔ LineStep input lineID view state next) := by
    intro notConflict notEdit notRescale
    rw [lineStep_settled_iff notConflict notEdit, view.apply_writes _ notRescale, pure_ok_iff]
    exact ⟨fun same => ⟨fun isRescale => absurd isRescale notRescale,
      same.symm⟩, fun both => both.2.symm⟩
  rw [reconcileLine_eq]
  simp only [isView]
  cases decided : view.decision with
  | conflict =>
    refine ⟨fun done => absurd done throw_ne_ok, fun step => ?_⟩
    cases step with
    | settle other => exact absurd decided other.1
    | edit other => simp [decided] at other
  | explicitWords =>
    have saved : view.savedLine = view.placedLine.anno := by simp [LineView.savedLine, decided]
    rw [← plain (by simp [decided]) (by simp [decided]) (by simp [decided]), saved, placed]
  | tokenEdit =>
    have saved : view.savedLine = setAnnotationText view.placedLine.anno (Go.join view.tokens) := by
      simp [LineView.savedLine, decided]
    have edited := @editTokens_ok_iff input
      { state with items := writeAt state.items view.placedLine view.placedLine.anno } next
        lineID view known
    rw [lineStep_edit_iff decided, view.apply_writes _ (by simp [decided]), saved]
    simpa only [placed, List.set_set] using edited
  | rewriteText =>
    have saved : view.savedLine =
        setAnnotationText view.placedLine.anno (normalizedAnnotationTexts view.proposedWords) := by
      simp [LineView.savedLine, decided]
    rw [← plain (by simp [decided]) (by simp [decided]) (by simp [decided]), saved, placed,
      placed, List.set_set]
  | keep =>
    have saved : view.savedLine = view.placedLine.anno := by simp [LineView.savedLine, decided]
    rw [← plain (by simp [decided]) (by simp [decided]) (by simp [decided]), saved, placed]
  | rescale =>
    have saved : view.savedLine = view.placedLine.anno := by simp [LineView.savedLine, decided]
    obtain ⟨apart, places⟩ := List.nodup_cons.mp (places decided)
    -- Writing the line first does not touch its words, which stand elsewhere.
    have current : ∀ word ∈ view.proposedWords,
        annotationAt (writeAt state.items view.placedLine view.placedLine.anno) word.index =
            word.anno := by
      intro word member
      have differs : view.proposedLine.index ≠ word.index :=
        fun same => apart (same ▸ List.mem_map_of_mem member)
      rw [← isView] at member
      obtain ⟨proposed, _, rfl⟩ := mem_ownedProposedWords.mp member
      rw [placed, annotationAt_congr (List.getElem?_set_ne differs)]
      rfl
    have writes : view.writes input = (view.proposedLine.index, .obj view.placedLine.anno) ::
        (view.proposedWords.map Located.index).zip ((view.scaledWords input).map Json.obj) := by
      simp [LineView.writes, decided, saved]
    rw [lineStep_settled_iff (by simp [decided]) (by simp [decided])]
    simp only [bind_ok_iff, rescaleWords_ok_iff places current, pure_ok_iff, decided, forall_const,
      writes, Patch.apply_cons]
    rw [placed]
    constructor
    · rintro ⟨_, ⟨scaled, rfl⟩, rfl⟩
      exact ⟨scaled, rfl⟩
    · rintro ⟨scaled, rfl⟩
      exact ⟨_, ⟨scaled, rfl⟩, rfl⟩

end

end Scribe.Server
