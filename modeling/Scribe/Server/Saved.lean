import Scribe.Server.LineLoop

/-! The saved page.

A successful save of one canonical page over another is a run through the lines of
both pages, followed by the assembly of the kept items and the generated words. Its
items have distinct identifiers: a generated word either takes the place of a word
that was removed or has an identifier that was not in use.
-/

set_option autoImplicit false

namespace Scribe.Server

open Iiif List

/-! ## A save is a run -/

theorem mem_existingLineIDs {base proposed : List Json} {lineID : String} :
    lineID ∈ (pageIndex base proposed).existingLineIDs ↔ IsExisting base proposed lineID := by
  simp only [PageIndex.existingLineIDs, pageIndex, keys_keyed, mem_filter,
    decide_eq_true_eq, IsExisting]
  exact and_comm

theorem existingLineIDs_nodup {canvasURI : String} {base proposed : List Json}
    (page : CanonicalPage canvasURI proposed) : (pageIndex base proposed).existingLineIDs.Nodup := by
  have distinct : ((linesOf proposed).map Located.id).Nodup := page.ids_nodup "line"
  simp only [PageIndex.existingLineIDs, pageIndex, keys_keyed]
  exact distinct.filter _

theorem initialUsedIDs_eq {canvasURI : String} {items : List Json}
    (page : CanonicalPage canvasURI items) : initialUsedIDs items = items.map itemID := by
  unfold initialUsedIDs
  have ids : (items.map fun item => Go.trimSpace (annStringValue item.toObject "id")) =
      items.map itemID := by
    apply map_congr_left
    intro item member
    exact (page.canonical item member).identified.trimSpace
  rw [ids, filter_eq_self]
  intro id member
  obtain ⟨item, inside, rfl⟩ := mem_map.mp member
  simpa using (page.canonical item inside).identified.isField.1

theorem isUnclaimedNewWord_new {base proposed : List Json} {claims : NewLineClaims} {id : String}
    (new : isUnclaimedNewWord (pageIndex base proposed) claims id = true) :
    id ∉ (wordsOf base).map Located.id := by
  simp only [isUnclaimedNewWord, pageIndex, keys_keyed, Bool.and_eq_true, decide_eq_true_eq] at new
  exact new.1

theorem structuralWordAt_eq_some {ext : Externals} {pageID : String} {base proposed : List Json}
    {claims : NewLineClaims} {lineID : String} {i : Nat} {entry : String × Located}
    (found : structuralWordAt ext pageID (pageIndex base proposed) claims lineID i = some entry) :
    structuralWordID ext pageID lineID i = .ok entry.1 ∧ entry.2 ∈ wordsOf proposed ∧
      entry.2.id = entry.1 ∧
      isUnclaimedNewWord (pageIndex base proposed) claims entry.1 = true := by
  obtain ⟨id, derived, searched⟩ := Option.bind_eq_some_iff.mp found
  obtain ⟨word, present, chosen⟩ := Option.bind_eq_some_iff.mp searched
  split at chosen
  · rename_i new
    cases chosen
    obtain ⟨isWord, same⟩ := get_keyed_eq_some present
    refine ⟨?_, isWord, same, new⟩
    cases made : structuralWordID ext pageID lineID i with
    | error message => simp [made, Except.toOption] at derived
    | ok other =>
      simp only [made, Except.toOption, Option.some.injEq] at derived
      rw [derived]
  · cases chosen

section
variable {canvasURI : String} {base proposed : List Json}
  (pageBase : CanonicalPage canvasURI base) (pageProposed : CanonicalPage canvasURI proposed)
include pageBase pageProposed

theorem isSave_saveInput (ext : Externals) (identity : PageIdentity) (pageID : String) (revision : Nat)
    (claims : NewLineClaims) :
    IsSave canvasURI base proposed (saveInput ext identity pageID revision base proposed
      (newWordsOf ext pageID (pageIndex base proposed) claims proposed)) where
  pageBase := pageBase
  pageProposed := pageProposed
  index := rfl
  owned := rfl
  count := rfl
  fresh := by
    intro lineID word member
    rcases mem_append.mp member with derived | lying
    · split at derived
      · obtain ⟨entry, inside, rfl⟩ := mem_map.mp derived
        obtain ⟨i, _, found⟩ := mem_filterMap.mp inside
        obtain ⟨_, isWord, same, new⟩ := structuralWordAt_eq_some found
        exact ⟨isWord, same ▸ isUnclaimedNewWord_new new⟩
      · simp at derived
    · obtain ⟨inside, new⟩ := mem_filter.mp lying
      rw [pageProposed.wordsOfLine_eq] at inside
      exact ⟨(mem_wordsOwnedBy.mp inside).1, isUnclaimedNewWord_new (Bool.and_eq_true_iff.mp new).1⟩

end

section
variable {canvasURI : String} {base proposed : List Json} {input : ReconcileInput}
  (save : IsSave canvasURI base proposed input)
include save

theorem IsSave.edit_words {lineID : String} (existing : IsExisting base proposed lineID)
    (decided : (input.view proposed lineID).decision = .tokenEdit) :
    input.newWords lineID = [] ∧
      (proposedOwnedWords (wordsOwnedBy base none lineID) (keyed (wordsOf proposed))).map Located.id =
        (wordsOwnedBy base none lineID).map Located.id := by
  obtain ⟨_, _, same⟩ := decideLine_eq_tokenEdit.mp decided
  simp only [save.view_eq existing, sameWordIDMembership, Bool.and_eq_true, decide_eq_true_eq,
    all_eq_true] at same
  obtain ⟨sameLength, inside⟩ := same
  have perm : (sortWithinLine (input.wordsRead proposed lineID)).Perm
      (input.wordsRead proposed lineID) :=
    perm_insertionSort withinLine _
  have noNew : input.newWords lineID = [] := by
    apply eq_nil_iff_forall_not_mem.mpr
    intro word new
    obtain ⟨old, isOld, sameID⟩ :=
      mem_map.mp (inside word (perm.mem_iff.mpr (mem_append_right _ new)))
    exact (save.fresh lineID word new).2 (sameID ▸ mem_map_of_mem (mem_wordsOwnedBy.mp isOld).1)
  refine ⟨noNew, (proposedOwnedWords_ids_sublist _ _).eq_of_length ?_⟩
  rw [perm.length_eq, ReconcileInput.wordsRead, noNew, append_nil, save.owned] at sameLength
  simp [← sameLength]

theorem IsSave.ready {lineIDs removed : List String} (distinct : lineIDs.Nodup)
    (existing : ∀ lineID ∈ lineIDs, IsExisting base proposed lineID) :
    RunReady (input.view proposed) (saveStart proposed removed) lineIDs where
  lines := distinct
  none := rfl
  words := by
    intro lineID member
    rw [save.view_eq (existing lineID member)]
    exact save.pageBase.owned_ids_nodup none lineID
  known := by
    intro lineID member decided id isID
    have here := (save.edit_words (existing lineID member) decided).2
    rw [save.view_eq (existing lineID member), ← here] at isID
    obtain ⟨word, isWord, rfl⟩ := mem_map.mp isID
    have distinctWords : ((wordsOf proposed).map Located.id).Nodup :=
      save.pageProposed.ids_nodup "word"
    have inside := ((mem_proposedOwnedWords distinctWords).mp isWord).1
    have place := save.pageProposed.located_item inside
    rw [saveStart, initialUsedIDs_eq save.pageProposed]
    exact mem_map.mpr ⟨_, mem_of_getElem? place, rfl⟩
  owners := by
    intro lineID member other otherMember apart id isID isOtherID
    rw [save.view_eq (existing lineID member)] at isID
    rw [save.view_eq (existing other otherMember)] at isOtherID
    exact apart (save.pageBase.owner_unique isID isOtherID)

end

def lineInput (ext : Externals) (identity : PageIdentity) (pageID : String) (revision : Nat)
    (base proposed : List Json) (claims : NewLineClaims) : ReconcileInput :=
  saveInput ext identity pageID revision base proposed
    (newWordsOf ext pageID (pageIndex base proposed) claims proposed)

theorem reconcileEditedLineWords_ok_iff_run {canvasURI : String} {base proposed : List Json}
    (pageBase : CanonicalPage canvasURI base) (pageProposed : CanonicalPage canvasURI proposed)
    {ext : Externals} {order : IterationOrder} {identity : PageIdentity} {revision : Nat}
    {result : List Json} :
    reconcileEditedLineWords ext order base proposed identity revision = .ok result ↔
      ∃ pageID claims removed state,
        annotationPageID ext identity.publicBaseURL identity.itemImageID = .ok pageID ∧
        newLineClaims order (pageIndex base proposed) (newLineAssignments base proposed) = .ok claims ∧
        removedLineWords order (pageIndex base proposed) (wordsOwnedBy base none)
          (baseWordOwner order (assignSpatialWordsToLines base none))
    (newLineAssignments base proposed) claims =
            .ok removed ∧
        (∀ lineID ∈ (pageIndex base proposed).existingLineIDs,
          ∀ i < tokenCount (pageIndex base proposed) lineID,
          ∃ id, structuralWordID ext pageID lineID i = .ok id) ∧
        LineRun (lineInput ext identity pageID revision base proposed claims)
          ((lineInput ext identity pageID revision base proposed claims).view proposed)
    (saveStart proposed removed)
          (order.visit .existingLines (pageIndex base proposed).existingLineIDs) state ∧
        assemble (keyed (linesOf base)) state = .ok result := by
  rw [reconcileEditedLineWords_ok_iff pageBase pageProposed]
  have visits := order.perm .existingLines (pageIndex base proposed).existingLineIDs
  have looped := fun pageID claims removed state =>
    @IsSave.run_iff canvasURI base proposed (lineInput ext identity pageID revision base
      proposed claims)
      (isSave_saveInput pageBase pageProposed ext identity pageID revision claims)
      (order.visit .existingLines (pageIndex base proposed).existingLineIDs)
        (saveStart proposed removed) state
      (visits.nodup_iff.mpr (existingLineIDs_nodup pageProposed))
      (fun lineID member => mem_existingLineIDs.mp (visits.mem_iff.mp member)) rfl
  constructor
  · rintro ⟨pageID, claims, removed, newWords, state, named, claimed, cascaded, joined, ran, assembled⟩
    obtain ⟨derived, rfl⟩ := newWordsByExistingLine_ok_iff.mp joined
    exact ⟨pageID, claims, removed, state, named, claimed, cascaded, derived,
      (looped pageID claims removed state).mp ran, assembled⟩
  · rintro ⟨pageID, claims, removed, state, named, claimed, cascaded, derived, ran, assembled⟩
    exact ⟨pageID, claims, removed, _, state, named, claimed, cascaded,
      newWordsByExistingLine_ok_iff.mpr ⟨derived, rfl⟩,
      (looped pageID claims removed state).mpr ran, assembled⟩

/-! ## Items keep their identity -/

/-- Items that agree in everything but text and place. -/
def SameIdentity (a b : Json) : Prop :=
  ∃ x y, a = .obj x ∧ b = .obj y ∧ ∀ key, "body" ≠ key → "target" ≠ key →
    Json.field x key = Json.field y key

theorem SameIdentity.itemID_eq {a b : Json} (same : SameIdentity a b) : itemID a = itemID b := by
  obtain ⟨x, y, rfl, rfl, fields⟩ := same
  exact annStringValue_congr (fields "id" (by decide) (by decide))

theorem SameIdentity.isGranularity_eq {a b : Json} (same : SameIdentity a b) (granularity : String) :
    isGranularity a.toObject granularity = isGranularity b.toObject granularity := by
  obtain ⟨x, y, rfl, rfl, fields⟩ := same
  exact isGranularity_congr granularity (fields "textGranularity" (by decide) (by decide))

theorem field_setAnnotationText_of_ne (anno : Object) (text : String) {key : String}
    (apart : "body" ≠ key) : Json.field (setAnnotationText anno text) key = Json.field anno key :=
  Json.field_set_of_ne anno _ apart

theorem LineView.savedLine_field (view : LineView) {key : String} (notBody : "body" ≠ key)
    (notTarget : "target" ≠ key) :
    Json.field view.savedLine key = Json.field view.proposedLine.anno key := by
  unfold LineView.savedLine
  split
  · rw [field_setAnnotationText_of_ne _ _ notBody, view.placedLine_field notTarget]
  · rw [field_setAnnotationText_of_ne _ _ notBody, view.placedLine_field notTarget]
  · exact view.placedLine_field notTarget

theorem LineView.mem_writes {view : LineView} {input : ReconcileInput} {i : Nat} {value : Json}
    (member : (i, value) ∈ view.writes input) :
    (i = view.proposedLine.index ∧ value = .obj view.savedLine) ∨
      (view.decision = .rescale ∧ ∃ word ∈ view.proposedWords, ∃ anno, i = word.index ∧
        value = .obj anno ∧
        view.scaledWord input word = .ok anno) := by
  unfold LineView.writes at member
  rcases mem_cons.mp member with first | later
  · exact .inl (Prod.mk.inj first)
  · split at later
    · rename_i decided
      refine .inr ⟨decided, ?_⟩
      cases scaled : view.proposedWords.mapM (view.scaledWord input) with
      | error message => simp [LineView.scaledWords, scaled, Except.toOption] at later
      | ok annos =>
        have isScaled : view.scaledWords input = annos := by
          simp [LineView.scaledWords, scaled, Except.toOption]
        rw [isScaled] at later
        obtain ⟨k, bound, atK⟩ := getElem_of_mem later
        have pairs := Attempt.mapM_ok_iff.mp scaled
        simp only [length_zip, length_map, lt_inf_iff] at bound
        simp only [getElem_zip, getElem_map, Prod.mk.injEq] at atK
        exact ⟨view.proposedWords[k], getElem_mem _, annos[k], atK.1.symm, atK.2.symm,
          (List.forall₂_iff_get.mp pairs).2 k bound.1 bound.2⟩
    · simp at later

section
variable {canvasURI : String} {base proposed : List Json} {input : ReconcileInput}
  (save : IsSave canvasURI base proposed input)
include save

section
variable {lineID : String} (existing : IsExisting base proposed lineID)
include existing

theorem IsSave.proposed_line :
    (input.view proposed lineID).proposedLine ∈ linesOf proposed ∧
      (input.view proposed lineID).proposedLine.id = lineID := by
  rw [save.view_eq existing]
  exact save.lookup_line existing

theorem IsSave.proposed_word {word : Located}
    (member : word ∈ (input.view proposed lineID).proposedWords) : word ∈ wordsOf proposed := by
  rw [save.view_eq existing] at member
  exact (save.mem_wordsRead ((perm_insertionSort withinLine _).mem_iff.mp member)).1

theorem IsSave.write_identity {i : Nat} {value : Json}
    (member : (i, value) ∈ (input.view proposed lineID).writes input) :
    ∃ item, proposed[i]? = some item ∧ SameIdentity value item := by
  rcases LineView.mem_writes member with ⟨rfl, rfl⟩ | ⟨_, word, isWord, anno, rfl, rfl, scaled⟩
  · refine ⟨_, save.pageProposed.located_item (save.proposed_line existing).1, _, _, rfl, rfl, ?_⟩
    intro key notBody notTarget
    exact LineView.savedLine_field _ notBody notTarget
  · refine ⟨_, save.pageProposed.located_item (save.proposed_word existing isWord), _, _, rfl, rfl, ?_⟩
    intro key _ notTarget
    obtain ⟨box, _, retargeted⟩ := Attempt.bind_ok_iff.mp scaled
    exact retargetExistingWord_field retargeted notTarget

end

theorem IsSave.sameIdentity {lineIDs : List String}
    (existing : ∀ lineID ∈ lineIDs, IsExisting base proposed lineID) (distinct : lineIDs.Nodup) :
    List.Forall₂ SameIdentity
      (Patch.apply proposed (lineIDs.flatMap fun lineID =>
        (input.view proposed lineID).writes input)) proposed := by
  rw [List.forall₂_iff_get]
  refine ⟨Patch.length_apply _ _, ?_⟩
  intro i bound inside
  have here : proposed[i]? = some proposed[i] := getElem?_eq_getElem inside
  simp only [get_eq_getElem]
  by_cases touched : i ∈ Assoc.keys (lineIDs.flatMap fun lineID =>
    (input.view proposed lineID).writes input)
  · obtain ⟨⟨_, value⟩, written, rfl⟩ := mem_map.mp touched
    have now := Patch.getElem?_apply_of_mem (save.all_writes_nodup distinct existing) written inside
    rw [getElem?_eq_getElem bound] at now
    obtain ⟨lineID, member, isWrite⟩ := mem_flatMap.mp written
    obtain ⟨item, atItem, same⟩ := save.write_identity (existing lineID member) isWrite
    rw [here] at atItem
    rw [Option.some.inj now, Option.some.inj atItem]
    exact same
  · have now := Patch.getElem?_apply_of_not_mem proposed touched
    rw [getElem?_eq_getElem bound, here] at now
    rw [Option.some.inj now]
    have isObject := (save.pageProposed.canonical _ (getElem_mem inside)).isObject
    exact ⟨_, _, isObject, isObject, fun _ _ _ => rfl⟩

end

/-! ## Assembly -/

def isDropped (state : ReconcileState) (item : Json) : Bool :=
  itemID item ∈ state.removeWordIDs && isGranularity item.toObject "word"

def generatedFor (state : ReconcileState) (lineID : String) : List Object :=
  (Assoc.get state.generatedByLine lineID).getD []

theorem assembleItem_eq (state : ReconcileState) {item : Json}
    (trimmed : Go.trimSpace (itemID item) = itemID item) : assembleItem state item =
      if isDropped state item then []
      else if isGranularity item.toObject "line" then
        item :: (generatedFor state (itemID item)).map Json.obj
      else [item] := by
  have id : Go.trimSpace (annStringValue item.toObject "id") = itemID item := trimmed
  simp only [assembleItem, id, isDropped, generatedFor, Bool.and_eq_true, decide_eq_true_eq]

theorem isLineItem_eq (item : Json) : isLineItem item = isGranularity item.toObject "line" := by
  cases item <;> rfl

theorem fillLineSlots_spec (items lines : List Json)
    (areLines : ∀ line ∈ lines, isLineItem line = true)
    (count : lines.length = (items.filter isLineItem).length) :
    (fillLineSlots items lines).filter isLineItem = lines ∧
      (fillLineSlots items lines).filter (!isLineItem ·) = items.filter (!isLineItem ·) := by
  induction items generalizing lines with
  | nil =>
    have none : lines = [] := by simpa using count
    simp [fillLineSlots, none]
  | cons item rest ih =>
    cases isLine : isLineItem item with
    | false =>
      obtain ⟨filled, others⟩ := ih lines areLines (by simpa [isLine] using count)
      simp [fillLineSlots, isLine, filled, others]
    | true =>
      cases lines with
      | nil => simp [isLine] at count
      | cons line lines =>
        have first := areLines line mem_cons_self
        obtain ⟨filled, others⟩ :=
          ih lines (fun other member => areLines other (mem_cons_of_mem _ member))
          (by simpa [isLine] using count)
        simp [fillLineSlots, isLine, first, filled, others]

/-- Keeping the committed lines first reorders lines only. -/
theorem preserveCommittedLineOwnershipOrder_spec (items : List Json)
    (baseLines : List (String × Located)) :
    (preserveCommittedLineOwnershipOrder items baseLines).filter (!isLineItem ·) =
      items.filter (!isLineItem ·) ∧
      ((preserveCommittedLineOwnershipOrder items baseLines).filter isLineItem).Perm
        (items.filter isLineItem) := by
  unfold preserveCommittedLineOwnershipOrder
  simp only
  split
  · exact ⟨rfl, .refl _⟩
  · have parts := filter_append_perm (isCommittedLine baseLines) (items.filter isLineItem)
    obtain ⟨lines, others⟩ := fillLineSlots_spec items
      ((items.filter isLineItem).filter (isCommittedLine baseLines) ++
        (items.filter isLineItem).filter fun line => !isCommittedLine baseLines line)
      (fun line member => (mem_filter.mp (parts.mem_iff.mp member)).2) parts.length_eq
    exact ⟨others, by rw [lines]; exact parts⟩

theorem preserveCommittedLineOwnershipOrder_perm (items : List Json)
    (baseLines : List (String × Located)) :
    (preserveCommittedLineOwnershipOrder items baseLines).Perm items := by
  obtain ⟨others, lines⟩ := preserveCommittedLineOwnershipOrder_spec items baseLines
  have whole := filter_append_perm isLineItem (preserveCommittedLineOwnershipOrder items baseLines)
  rw [others] at whole
  exact whole.symm.trans ((lines.append_right _).trans (filter_append_perm isLineItem items))

/-! ## Saved pages -/

/-- A successful save with the state its line loop ended in. -/
structure Saved (canvasURI : String) (base proposed : List Json) (input : ReconcileInput)
    (removed lineIDs : List String) (state : ReconcileState) (result : List Json) : Prop where
  save : IsSave canvasURI base proposed input
  lines : lineIDs.Perm (pageIndex base proposed).existingLineIDs
  made : RunMade input (input.view proposed) (saveStart proposed removed) lineIDs state
  assembled : assemble (keyed (linesOf base)) state = .ok result

section
variable {canvasURI : String} {base proposed : List Json} (pageBase : CanonicalPage canvasURI base)
  (pageProposed : CanonicalPage canvasURI proposed)
include pageBase pageProposed

theorem saved_of_run {result : List Json} {ext : Externals}
    {order : IterationOrder} {identity : PageIdentity} {revision : Nat} {pageID : String}
    {claims : NewLineClaims} {removed : List String} {state : ReconcileState}
    (ran : LineRun (lineInput ext identity pageID revision base proposed claims)
      ((lineInput ext identity pageID revision base proposed claims).view proposed)
      (saveStart proposed removed)
      (order.visit .existingLines (pageIndex base proposed).existingLineIDs) state)
    (assembled : assemble (keyed (linesOf base)) state = .ok result) :
    Saved canvasURI base proposed (lineInput ext identity pageID revision base proposed claims) removed
      (order.visit .existingLines (pageIndex base proposed).existingLineIDs) state result := by
  have visits := order.perm .existingLines (pageIndex base proposed).existingLineIDs
  have save : IsSave canvasURI base proposed (lineInput ext identity pageID revision base
      proposed claims) :=
    isSave_saveInput pageBase pageProposed ext identity pageID revision claims
  have ready : RunReady ((lineInput ext identity pageID revision base proposed claims).view proposed)
      (saveStart proposed removed) (order.visit .existingLines
          (pageIndex base proposed).existingLineIDs) :=
    save.ready (visits.nodup_iff.mpr (existingLineIDs_nodup pageProposed))
      (fun lineID member => mem_existingLineIDs.mp (visits.mem_iff.mp member))
  exact ⟨save, visits, ran.made ready, assembled⟩

theorem saved_of_ok {result : List Json} {ext : Externals}
    {order : IterationOrder} {identity : PageIdentity} {revision : Nat}
    (done : reconcileEditedLineWords ext order base proposed identity revision = .ok result) :
    ∃ pageID claims removed state,
      newLineClaims order (pageIndex base proposed) (newLineAssignments base proposed) = .ok claims ∧
      removedLineWords order (pageIndex base proposed) (wordsOwnedBy base none)
        (baseWordOwner order (assignSpatialWordsToLines base none))
    (newLineAssignments base proposed) claims =
          .ok removed ∧
      Saved canvasURI base proposed (lineInput ext identity pageID revision base proposed claims)
        removed
        (order.visit .existingLines (pageIndex base proposed).existingLineIDs) state result := by
  obtain ⟨pageID, claims, removed, state, _, claimed, cascaded, _, ran, assembled⟩ :=
    (reconcileEditedLineWords_ok_iff_run pageBase pageProposed).mp done
  exact ⟨pageID, claims, removed, state, claimed, cascaded,
    saved_of_run pageBase pageProposed ran assembled⟩

end

section
variable {canvasURI : String} {base proposed : List Json} {input : ReconcileInput}
  {removed lineIDs : List String} {state : ReconcileState} {result : List Json}
  (saved : Saved canvasURI base proposed input removed lineIDs state result)
include saved

theorem Saved.existing {lineID : String} : lineID ∈ lineIDs ↔ IsExisting base proposed lineID := by
  rw [saved.lines.mem_iff, mem_existingLineIDs]

theorem Saved.lines_nodup : lineIDs.Nodup :=
  saved.lines.nodup_iff.mpr (existingLineIDs_nodup saved.save.pageProposed)

theorem Saved.sameIdentity : List.Forall₂ SameIdentity state.items proposed := by
  rw [saved.made.items]
  exact saved.save.sameIdentity (fun _ member => saved.existing.mp member) saved.lines_nodup

theorem Saved.item_ids : state.items.map itemID = proposed.map itemID := by
  have same := saved.sameIdentity
  rw [← List.forall₂_eq_eq_eq, List.forall₂_map_left_iff, List.forall₂_map_right_iff]
  exact same.imp fun _ _ same => same.itemID_eq

theorem Saved.proposed_item {item : Json} (member : item ∈ state.items) :
    ∃ (i : Nat) (other : Json), state.items[i]? = some item ∧ proposed[i]? = some other ∧
      SameIdentity item other := by
  obtain ⟨i, bound, rfl⟩ := getElem_of_mem member
  obtain ⟨sameLength, each⟩ := List.forall₂_iff_get.mp saved.sameIdentity
  have inside : i < proposed.length := sameLength ▸ bound
  exact ⟨i, proposed[i], getElem?_eq_getElem bound, getElem?_eq_getElem inside, each i bound inside⟩

theorem Saved.trimmed {item : Json} (member : item ∈ state.items) :
    Go.trimSpace (itemID item) = itemID item := by
  obtain ⟨i, other, _, atOther, same⟩ := saved.proposed_item member
  rw [same.itemID_eq]
  exact (saved.save.pageProposed.canonical other (mem_of_getElem? atOther)).identified.trimSpace

theorem Saved.perm : result.Perm (state.items.flatMap (assembleItem state)) := by
  have assembled := saved.assembled
  unfold assemble at assembled
  simp only at assembled
  split at assembled
  · cases assembled
  · rw [← Except.ok.inj assembled]
    exact preserveCommittedLineOwnershipOrder_perm _ _

theorem Saved.generated_edited {lineID : String} {word : Object}
    (member : word ∈ generatedFor state lineID) :
    lineID ∈ lineIDs ∧ (input.view proposed lineID).decision = .tokenEdit ∧
      Assoc.get state.generatedByLine lineID = some (generatedFor state lineID) := by
  unfold generatedFor at member ⊢
  cases got : Assoc.get state.generatedByLine lineID with
  | none => simp [got] at member
  | some words =>
    by_contra missing
    have absent := saved.made.others lineID fun both => missing ⟨both.1, both.2, rfl⟩
    rw [got] at absent
    cases absent

theorem Saved.generated_apart {item : Json} (isItem : item ∈ state.items)
    (kept : isDropped state item = false) {lineID : String} {word : Object}
    (member : word ∈ generatedFor state lineID) : wordID word ≠ itemID item := by
  intro same
  have page := saved.save.pageProposed
  obtain ⟨isLine, decided, got⟩ := saved.generated_edited member
  have existing := saved.existing.mp isLine
  obtain ⟨i, other, _, atOther, identity⟩ := saved.proposed_item isItem
  have inUse : wordID word ∈ (saveStart proposed removed).usedIDs := by
    rw [saveStart, initialUsedIDs_eq page, same, identity.itemID_eq]
    exact mem_map_of_mem (mem_of_getElem? atOther)
  have mine := saved.made.origin lineID _ got word member inUse
  have isRemoved : wordID word ∈ state.removeWordIDs :=
    (saved.made.removed _).mpr (.inr ⟨lineID, isLine, decided, mine⟩)
  -- A line edits its tokens only if its words are on the proposed page.
  have isWord : isGranularity item.toObject "word" = true := by
    rw [saved.save.view_eq existing] at mine
    simp only at mine
    rw [← (saved.save.edit_words existing decided).2] at mine
    obtain ⟨found, isFound, foundID⟩ := mem_map.mp mine
    have distinctWords : ((wordsOf proposed).map Located.id).Nodup := page.ids_nodup "word"
    have inWords := ((mem_proposedOwnedWords distinctWords).mp isFound).1
    have sameIndex := page.index_eq_of_id (page.located_item inWords) atOther
      (show found.id = itemID other by rw [foundID, same, identity.itemID_eq])
    have atFound := page.located_item inWords
    rw [sameIndex, atOther] at atFound
    rw [identity.isGranularity_eq, Option.some.inj atFound]
    exact (mem_locatedOf.mp inWords).2.1
  rw [isDropped, ← same, isWord] at kept
  simp [isRemoved] at kept

theorem Saved.ids_nodup : (result.map itemID).Nodup := by
  have ids : (state.items.map itemID).Nodup := by
    rw [saved.item_ids]
    exact saved.save.pageProposed.distinct
  have generatedID : ∀ words : List Object, (words.map Json.obj).map itemID = words.map wordID := by
    intro words
    rw [map_map]
    rfl
  have generatedNodup : ∀ lineID, ((generatedFor state lineID).map wordID).Nodup := by
    intro lineID
    unfold generatedFor
    cases got : Assoc.get state.generatedByLine lineID with
    | none => simp
    | some words => exact saved.made.distinct lineID words got
  -- An identifier of the assembled page comes from a kept item or from a word generated for one.
  have members : ∀ item ∈ state.items, ∀ id ∈ (assembleItem state item).map itemID,
      isDropped state item = false ∧ (id = itemID item ∨
        (isGranularity item.toObject "line" = true ∧ ∃ word ∈ generatedFor state (itemID item),
            wordID word = id)) := by
    intro item member id isID
    rw [assembleItem_eq state (saved.trimmed member)] at isID
    cases dropped : isDropped state item with
    | true => simp [dropped] at isID
    | false =>
      refine ⟨rfl, ?_⟩
      cases isLine : isGranularity item.toObject "line" with
      | false => exact .inl (by simpa [dropped, isLine] using isID)
      | true =>
        simp only [dropped, isLine, Bool.false_eq_true, if_false, if_true, map_cons, generatedID,
          mem_cons] at isID
        rcases isID with rfl | made
        · exact .inl rfl
        · exact .inr ⟨rfl, mem_map.mp made⟩
  rw [(saved.perm.map itemID).nodup_iff, map_flatMap, nodup_flatMap]
  constructor
  · intro item member
    rw [assembleItem_eq state (saved.trimmed member)]
    cases dropped : isDropped state item with
    | true => simp
    | false =>
      cases isGranularity item.toObject "line" with
      | false => simp
      | true =>
        simp only [Bool.false_eq_true, if_false, if_true, map_cons, generatedID, nodup_cons]
        refine ⟨fun isMade => ?_, generatedNodup _⟩
        obtain ⟨word, isWord, same⟩ := mem_map.mp isMade
        exact saved.generated_apart member dropped isWord same
  · refine (pairwise_map.mp ids).imp_of_mem ?_
    intro a b memberA memberB apart id inA inB
    obtain ⟨keptA, fromA⟩ := members a memberA id inA
    obtain ⟨keptB, fromB⟩ := members b memberB id inB
    rcases fromA with rfl | ⟨_, wordA, isWordA, rfl⟩
    · rcases fromB with same | ⟨_, wordB, isWordB, same⟩
      · exact apart same
      · exact saved.generated_apart memberA keptA isWordB same
    · rcases fromB with same | ⟨_, wordB, isWordB, same⟩
      · exact saved.generated_apart memberB keptB isWordA same
      -- Two generated words: the lines differ, and no word is generated for two lines.
      · obtain ⟨_, _, gotA⟩ := saved.generated_edited isWordA
        obtain ⟨_, _, gotB⟩ := saved.generated_edited isWordB
        exact saved.made.apart _ _ _ _ gotA gotB apart wordA isWordA wordB isWordB same.symm

theorem Saved.generated_isWord {lineID : String} {word : Object}
    (member : word ∈ generatedFor state lineID) :
    isGranularity word "word" = true ∧ isGranularity word "line" = false := by
  obtain ⟨isLine, decided, got⟩ := saved.generated_edited member
  obtain ⟨used, words, _, edited, gotWords⟩ := saved.made.edited lineID isLine decided
  rw [got] at gotWords
  obtain ⟨found, progress, _, _, _, made, same⟩ := edited.made
  rw [Option.some.inj gotWords, ← same] at member
  obtain ⟨k, bound, rfl⟩ := getElem_of_mem member
  have entries : k < (input.view proposed lineID).tokens.zipIdx.length := made.words.length_eq ▸ bound
  exact ((List.forall₂_iff_get.mp made.words).2 k entries bound).isWord

/-- The items of the assembled page: the kept ones and the generated words. -/
theorem Saved.mem_assembled {item : Json} :
    item ∈ state.items.flatMap (assembleItem state) ↔
      (item ∈ state.items ∧ isDropped state item = false) ∨
        ∃ line ∈ state.items, isDropped state line = false ∧
          isGranularity line.toObject "line" = true ∧
          ∃ word ∈ generatedFor state (itemID line), item = .obj word := by
  rw [mem_flatMap]
  constructor
  · rintro ⟨source, isSource, member⟩
    rw [assembleItem_eq state (saved.trimmed isSource)] at member
    cases dropped : isDropped state source with
    | true => simp [dropped] at member
    | false =>
      cases isLine : isGranularity source.toObject "line" with
      | false =>
        simp only [dropped, isLine, Bool.false_eq_true, if_false, mem_singleton] at member
        exact .inl (member ▸ ⟨isSource, dropped⟩)
      | true =>
        simp only [dropped, isLine, Bool.false_eq_true, if_false, if_true, mem_cons, mem_map] at member
        rcases member with rfl | ⟨word, isWord, rfl⟩
        · exact .inl ⟨isSource, dropped⟩
        · exact .inr ⟨source, isSource, dropped, isLine, word, isWord, rfl⟩
  · rintro (⟨isItem, kept⟩ | ⟨line, isItem, kept, isLine, word, isWord, rfl⟩)
    · refine ⟨item, isItem, ?_⟩
      rw [assembleItem_eq state (saved.trimmed isItem)]
      cases isGranularity item.toObject "line" <;> simp [kept]
    · refine ⟨line, isItem, ?_⟩
      rw [assembleItem_eq state (saved.trimmed isItem)]
      simp [kept, isLine, isWord]

end

end Scribe.Server
