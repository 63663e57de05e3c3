import Scribe.Server.Saved

/-! Saves that change texts only.

When a draft differs from the committed page in bodies alone, both pages have the
same lines and words in the same places, so every word keeps its line. A line whose
text and words are as committed is left as it is.
-/

set_option autoImplicit false

namespace Scribe.Server

open Iiif List

def SameButBody (a b : Json) : Prop :=
  ∃ x y, a = .obj x ∧ b = .obj y ∧ ∀ key, "body" ≠ key → Json.field x key = Json.field y key

/-- Pages that agree in everything but bodies. -/
def Retexted (base proposed : List Json) : Prop := List.Forall₂ SameButBody base proposed

section
variable {base proposed : List Json} (retexted : Retexted base proposed)
include retexted

theorem Retexted.getElem? {i : Nat} {item : Json} (here : base[i]? = some item) :
    ∃ x y, item = .obj x ∧ proposed[i]? = some (.obj y) ∧ annotationAt proposed i = y ∧
      ∀ key, "body" ≠ key → Json.field x key = Json.field y key := by
  obtain ⟨sameLength, each⟩ := List.forall₂_iff_get.mp retexted
  obtain ⟨bound, rfl⟩ := List.getElem?_eq_some_iff.mp here
  have inside : i < proposed.length := sameLength ▸ bound
  obtain ⟨x, y, isX, isY, fields⟩ := each i bound inside
  have place : proposed[i]? = some (.obj y) := by
    rw [getElem?_eq_getElem inside]
    exact congrArg some isY
  exact ⟨x, y, isX, place, by simp [annotationAt, place], fields⟩

theorem Retexted.item_ids : proposed.map itemID = base.map itemID := by
  have flipped : List.Forall₂ (fun b a => itemID b = itemID a) proposed base :=
    (retexted.imp fun a b same => by
      obtain ⟨x, y, rfl, rfl, fields⟩ := same
      exact (annStringValue_congr (fields "id" (by decide))).symm).flip
  rw [← List.forall₂_eq_eq_eq, List.forall₂_map_left_iff, List.forall₂_map_right_iff]
  exact flipped

theorem Retexted.canonical {canvasURI : String} (page : CanonicalPage canvasURI base) :
    CanonicalPage canvasURI proposed := by
  refine ⟨page.named, ?_, retexted.item_ids ▸ page.distinct, retexted.length_eq ▸ page.bounded⟩
  intro item member
  obtain ⟨i, bound, rfl⟩ := getElem_of_mem member
  have inside : i < base.length := retexted.length_eq ▸ bound
  obtain ⟨x, y, isX, place, _, fields⟩ := retexted.getElem? (getElem?_eq_getElem inside)
  have canonical := page.canonical base[i] (getElem_mem inside)
  rw [getElem?_eq_getElem bound] at place
  rw [isX] at canonical
  rw [Option.some.inj place]
  refine ⟨rfl, ?_, ?_, ?_, ?_⟩
  · have same : itemID (.obj y) = itemID (.obj x) :=
      (annStringValue_congr (fields "id" (by decide))).symm
    rw [same]
    exact canonical.identified
  · rw [Json.toObject_obj, ← annStringValue_congr (fields "textGranularity" (by decide))]
    exact canonical.level
  · rw [Json.toObject_obj, ← extractCanvasURI_congr (fields "on" (by decide))
      (fields "target" (by decide))]
    exact canonical.canvas
  · rw [Json.toObject_obj, ← isGranularity_congr _ (fields "textGranularity" (by decide)),
      ← isGranularity_congr _ (fields "textGranularity" (by decide)),
      ← annotationBox_congr (fields "target" (by decide))]
    exact canonical.placed

omit retexted in
theorem locate?_retexted {granularity : String} {x y : Object} (i : Nat)
    (fields : ∀ key, "body" ≠ key → Json.field x key = Json.field y key) :
    locate? granularity (.obj y, i) = (locate? granularity (.obj x, i)).map fun found =>
      { found with anno := y } := by
  have level := isGranularity_congr granularity (fields "textGranularity" (by decide))
  have box := annotationBox_congr (fields "target" (by decide))
  apply Option.ext
  rintro ⟨anno, index, found⟩
  simp only [Option.map_eq_some_iff, locate?_eq_some, Json.toObject_obj]
  constructor
  · rintro ⟨rfl, rfl, isLevel, isBox⟩
    exact ⟨⟨x, i, found⟩, ⟨rfl, rfl, level.trans isLevel, box.trans isBox⟩, rfl⟩
  · rintro ⟨⟨_, _, _⟩, ⟨rfl, rfl, isLevel, isBox⟩, same⟩
    obtain ⟨rfl, rfl, rfl⟩ := Located.mk.inj same
    exact ⟨rfl, rfl, level.symm.trans isLevel, box.symm.trans isBox⟩

theorem Retexted.locatedOf_eq (granularity : String) :
    locatedOf proposed granularity = (locatedOf base granularity).map (Located.refresh proposed) := by
  have zipped : proposed.zipIdx = base.zipIdx.map fun entry =>
      (proposed[entry.2]?.getD .null, entry.2) := by
    apply ext_getElem?
    intro i
    have sameLength := retexted.length_eq
    by_cases inside : i < base.length
    · simp [inside, sameLength ▸ inside]
    · simp [inside, sameLength ▸ inside]
  unfold locatedOf
  rw [zipped, filterMap_map, map_filterMap]
  apply filterMap_congr
  rintro ⟨item, i⟩ member
  obtain ⟨x, y, rfl, place, isAt, fields⟩ := retexted.getElem? (mem_zipIdx_iff_getElem?.mp member)
  simp only [Function.comp_apply, place, Option.getD_some]
  rw [locate?_retexted i fields]
  cases found : locate? granularity (.obj x, i) with
  | none => simp
  | some located =>
    have index : i = located.index := (locate?_eq_some.mp found).2.1
    simp [Located.refresh, ← index, isAt]

theorem Retexted.refresh_id {granularity : String} {located : Located}
    (member : located ∈ locatedOf base granularity) :
    (located.refresh proposed).id = located.id := by
  obtain ⟨⟨item, place, same⟩, _⟩ := mem_locatedOf.mp member
  obtain ⟨x, y, rfl, _, isAt, fields⟩ := retexted.getElem? place
  rw [Json.toObject_obj] at same
  rw [Located.id, Located.id, Located.refresh, isAt, ← same]
  exact (annStringValue_congr (fields "id" (by decide))).symm

theorem Retexted.ids_eq (granularity : String) :
    (locatedOf proposed granularity).map Located.id = (locatedOf base granularity).map Located.id := by
  rw [retexted.locatedOf_eq, map_map]
  apply map_congr_left
  intro located member
  exact retexted.refresh_id member

theorem Retexted.lineOwner_eq (eligible : Option (List String)) (word : Located) :
    lineOwner proposed eligible (word.refresh proposed) = lineOwner base eligible word := by
  have lines : (linesOf proposed).filter (fun line => ∀ ids ∈ eligible, line.id ∈ ids) =
      ((linesOf base).filter fun line => ∀ ids ∈ eligible, line.id ∈ ids).map
          (Located.refresh proposed) := by
    rw [linesOf, linesOf, retexted.locatedOf_eq, filter_map]
    congr 1
    apply filter_congr
    intro line member
    simp only [Function.comp_apply, retexted.refresh_id member]
  unfold lineOwner
  rw [lines, find?_map, Option.map_map]
  have ids : ∀ found : Option Located, (∀ line ∈ found, line ∈ linesOf base) →
      found.map (Located.id ∘ Located.refresh proposed) = found.map Located.id := by
    intro found inside
    cases found with
    | none => rfl
    | some line => exact congrArg some (retexted.refresh_id (inside line rfl))
  apply ids
  intro line found
  exact (mem_filter.mp (mem_of_find?_eq_some found)).1

theorem Retexted.wordsOwnedBy_eq (eligible : Option (List String)) (lineID : String) :
    wordsOwnedBy proposed eligible lineID = (wordsOwnedBy base eligible lineID).map
      (Located.refresh proposed) := by
  unfold wordsOwnedBy sortWithinLine
  rw [map_insertionSort withinLine withinLine (Located.refresh proposed) _ (fun _ _ _ _ => Iff.rfl),
    wordsOf, wordsOf, retexted.locatedOf_eq, filter_map]
  congr 2
  apply filter_congr
  intro word _
  simp only [Function.comp_apply, retexted.lineOwner_eq]

/-! ## Saves of retexted pages -/

theorem Retexted.no_new_lines : (pageIndex base proposed).newLineIDs = [] := by
  have ids : (linesOf proposed).map Located.id = (linesOf base).map Located.id :=
    retexted.ids_eq "line"
  simp [PageIndex.newLineIDs, pageIndex, ids, filter_eq_nil_iff]

theorem Retexted.no_removed_lines : (pageIndex base proposed).removedLineIDs = [] := by
  have ids : (linesOf proposed).map Located.id = (linesOf base).map Located.id :=
    retexted.ids_eq "line"
  simp [PageIndex.removedLineIDs, pageIndex, ids, filter_eq_nil_iff]

theorem Retexted.existing_iff {lineID : String} :
    IsExisting base proposed lineID ↔ lineID ∈ (linesOf base).map Located.id := by
  have ids : (linesOf proposed).map Located.id = (linesOf base).map Located.id :=
    retexted.ids_eq "line"
  simp [IsExisting, ids]

end

def retextView (base proposed : List Json) (line : Located) : LineView where
  baseLine := line
  proposedLine := line.refresh proposed
  baseWords := wordsOwnedBy base none line.id
  proposedWords := (wordsOwnedBy base none line.id).map (Located.refresh proposed)

theorem sorted_wordsOwnedBy (items : List Json) (eligible : Option (List String)) (lineID : String) :
    (wordsOwnedBy items eligible lineID).Pairwise withinLine := by
  have total : Std.Total withinLine := ⟨fun a b => by unfold withinLine; omega⟩
  have trans : IsTrans Located withinLine := ⟨fun a b c => by unfold withinLine; omega⟩
  exact pairwise_insertionSort withinLine _

section
variable {canvasURI : String} {base proposed : List Json} {input : ReconcileInput}
  (save : IsSave canvasURI base proposed input) (retexted : Retexted base proposed)
include save retexted

theorem IsSave.no_new_words (lineID : String) : input.newWords lineID = [] := by
  apply eq_nil_iff_forall_not_mem.mpr
  intro word new
  obtain ⟨isWord, notBase⟩ := save.fresh lineID word new
  have ids : (wordsOf proposed).map Located.id = (wordsOf base).map Located.id :=
    retexted.ids_eq "word"
  exact notBase (ids ▸ mem_map_of_mem isWord)

theorem IsSave.view_retexted {line : Located} (isLine : line ∈ linesOf base) :
    input.view proposed line.id = retextView base proposed line := by
  have existing : IsExisting base proposed line.id := retexted.existing_iff.mpr (mem_map_of_mem isLine)
  have isProposed : line.refresh proposed ∈ linesOf proposed := by
    rw [linesOf, retexted.locatedOf_eq]
    exact mem_map_of_mem isLine
  have baseLine : lookup input.index.baseLines line.id = line := by
    rw [save.index]
    exact lookup_keyed (save.pageBase.ids_nodup "line") isLine
  have proposedLine : lookup input.index.proposedLines line.id = line.refresh proposed := by
    rw [save.index, ← retexted.refresh_id isLine]
    exact lookup_keyed (save.pageProposed.ids_nodup "line") isProposed
  have words : proposedOwnedWords (wordsOwnedBy base none line.id) (keyed (wordsOf proposed)) =
      (wordsOwnedBy base none line.id).map (Located.refresh proposed) := by
    rw [proposedOwnedWords, ← filterMap_eq_map]
    apply filterMap_congr
    intro word member
    have isWord := (mem_wordsOwnedBy.mp member).1
    have isProposedWord : word.refresh proposed ∈ wordsOf proposed := by
      rw [wordsOf, retexted.locatedOf_eq]
      exact mem_map_of_mem isWord
    rw [← retexted.refresh_id isWord]
    exact get_keyed (save.pageProposed.ids_nodup "word") isProposedWord
  have sorted : sortWithinLine ((wordsOwnedBy base none line.id).map (Located.refresh proposed)) =
      (wordsOwnedBy base none line.id).map (Located.refresh proposed) := by
    rw [sortWithinLine, ← map_insertionSort withinLine withinLine (Located.refresh proposed) _
      (fun _ _ _ _ => Iff.rfl), (sorted_wordsOwnedBy base none line.id).insertionSort_eq]
  rw [save.view_eq existing, baseLine, proposedLine, ReconcileInput.wordsRead,
    save.no_new_words retexted, append_nil, save.owned, words, sorted]
  rfl

end

/-- Retexted lines stay in place, so their words are never scaled. -/
theorem retextView_decision (base proposed : List Json) (line : Located) :
    (retextView base proposed line).decision =
      if line.text ≠ (line.refresh proposed).text ∧ wordsOwnedBy base none line.id ≠ [] then
        if sameWordIDMembership (wordsOwnedBy base none line.id)
            ((wordsOwnedBy base none line.id).map (Located.refresh proposed)) then .tokenEdit
        else if lineAndWordsSynchronized (line.refresh proposed)
            ((wordsOwnedBy base none line.id).map (Located.refresh proposed)) then .explicitWords
        else .conflict
      else if wordIdentityTextSequence (wordsOwnedBy base none line.id) ≠
          wordIdentityTextSequence ((wordsOwnedBy base none line.id).map
            (Located.refresh proposed)) then .rewriteText
      else .keep := by
  have stays : sameBox line (line.refresh proposed) = true := by simp [sameBox, Located.refresh]
  unfold LineView.decision retextView decideLine
  simp only [stays, true_or, if_true]

theorem retextView_untouched {base proposed : List Json} {line : Located} (input : ReconcileInput)
    (sameLine : line.refresh proposed = line)
    (sameWords : ∀ word ∈ wordsOwnedBy base none line.id, word.refresh proposed = word) :
    (retextView base proposed line).decision = .keep ∧
      (retextView base proposed line).writes input = [(line.index, .obj line.anno)] := by
  have words : (wordsOwnedBy base none line.id).map (Located.refresh proposed) =
      wordsOwnedBy base none line.id := by
    conv_rhs => rw [← map_id (wordsOwnedBy base none line.id)]
    exact map_congr_left sameWords
  have decided : (retextView base proposed line).decision = .keep := by
    rw [retextView_decision, sameLine, words]
    simp
  refine ⟨decided, ?_⟩
  have placed : (retextView base proposed line).placedLine = line := by
    simp [LineView.placedLine, retextView, sameLine, sameBox]
  simp only [LineView.writes, decided, LineView.savedLine, placed]
  simp [retextView, sameLine]

/-- A save in which one line and its words may have other texts. -/
structure OneLineSave (canvasURI : String) (base proposed : List Json) (line : Located)
    (input : ReconcileInput) (state : ReconcileState) (result : List Json) : Prop where
  save : IsSave canvasURI base proposed input
  view : input.view proposed line.id = retextView base proposed line
  items : state.items = proposed.set line.index (.obj (retextView base proposed line).savedLine)
  removed : ∀ id, id ∈ state.removeWordIDs ↔
    (retextView base proposed line).decision = .tokenEdit ∧
    id ∈ (wordsOwnedBy base none line.id).map Located.id
  others : ∀ other, other ≠ line.id → generatedFor state other = []
  unedited : (retextView base proposed line).decision ≠ .tokenEdit → generatedFor state line.id = []
  edited : (retextView base proposed line).decision = .tokenEdit → ∃ used, proposed.map itemID ⊆ used ∧
    LineEdited input (retextView base proposed line) used (generatedFor state line.id)
  saved : ∃ lineIDs, Saved canvasURI base proposed input [] lineIDs state result

/-- A draft that changes at most the bodies of one line and of some words. -/
structure RetextedLine (base proposed : List Json) (line : Located) (words : List Located) : Prop where
  isLine : line ∈ linesOf base
  retexted : Retexted base proposed
  others : ∀ (i : Nat) (item : Json), base[i]? = some item → itemID item ≠ line.id →
    itemID item ∉ words.map Located.id → proposed[i]? = some item

section
variable {canvasURI : String} {base proposed result : List Json} {line : Located}
  (page : CanonicalPage canvasURI base)
  (draft : RetextedLine base proposed line (wordsOwnedBy base none line.id))
include page draft

theorem RetextedLine.refresh_untouched {granularity : String} {other : Located}
    (member : other ∈ locatedOf base granularity) (notLine : other.id ≠ line.id)
    (notWord : other.id ∉ (wordsOwnedBy base none line.id).map Located.id) :
    other.refresh proposed = other := by
  have now := draft.others _ _ (page.located_item member) notLine notWord
  simp [Located.refresh, annotationAt, now]

theorem RetextedLine.other_line {other : Located} (isOther : other ∈ linesOf base)
    (apart : other.id ≠ line.id) :
    other.refresh proposed = other ∧ ∀ word ∈ wordsOwnedBy base none other.id,
      word.refresh proposed = word := by
  constructor
  · exact draft.refresh_untouched page isOther apart (page.line_not_owned isOther none line.id)
  · intro word member
    have isWord := (mem_wordsOwnedBy.mp member).1
    refine draft.refresh_untouched page isWord ?_ ?_
    · exact (page.line_id_ne_word_id draft.isLine isWord).symm
    · exact fun mine => apart (page.owner_unique (mem_map_of_mem member) mine)

theorem RetextedLine.items_eq {input : ReconcileInput} (save : IsSave canvasURI base proposed input)
    {lineIDs : List String} (distinct : lineIDs.Nodup)
    (listed : ∀ lineID, lineID ∈ lineIDs ↔ lineID ∈ (linesOf base).map Located.id) :
    Patch.apply proposed (lineIDs.flatMap fun lineID => (input.view proposed lineID).writes input) =
      proposed.set line.index (.obj (retextView base proposed line).savedLine) := by
  have retexted := draft.retexted
  have existing : ∀ lineID ∈ lineIDs, IsExisting base proposed lineID := fun lineID member =>
    retexted.existing_iff.mpr ((listed lineID).mp member)
  have isListed : line.id ∈ lineIDs := (listed _).mpr (mem_map_of_mem draft.isLine)
  have first := perm_cons_erase isListed
  have perm := first.flatMap_right fun lineID => (input.view proposed lineID).writes input
  have mine : (input.view proposed line.id).writes input =
      [(line.index, .obj (retextView base proposed line).savedLine)] := by
    rw [save.view_retexted retexted draft.isLine]
    have notRescale : (retextView base proposed line).decision ≠ .rescale := by
      rw [retextView_decision]
      split_ifs <;> simp
    unfold LineView.writes
    split
    · rename_i isRescale
      exact absurd isRescale notRescale
    · rfl
  rw [Patch.apply_perm _ (save.all_writes_nodup distinct existing) perm, flatMap_cons, mine,
    singleton_append, Patch.apply_cons]
  refine Patch.apply_of_current ?_
  intro write member
  obtain ⟨otherID, isOtherID, isWrite⟩ := mem_flatMap.mp member
  obtain ⟨apart, stillListed⟩ := distinct.mem_erase_iff.mp isOtherID
  obtain ⟨other, isOther, rfl⟩ := mem_map.mp ((listed otherID).mp stillListed)
  obtain ⟨sameLine, sameWords⟩ := draft.other_line page isOther apart
  rw [save.view_retexted retexted isOther, (retextView_untouched input sameLine sameWords).2,
    mem_singleton] at isWrite
  subst isWrite
  have place := page.located_item isOther
  have differs : line.index ≠ other.index := by
    intro sameIndex
    exact apart (congrArg Located.id (page.located_eq_of_index draft.isLine isOther sameIndex)).symm
  rw [getElem?_set_ne differs]
  exact draft.others _ _ place apart (page.line_not_owned isOther none line.id)

theorem RetextedLine.oneLineSave {ext : Externals} {order : IterationOrder}
    {identity : PageIdentity} {revision : Nat}
    (done : reconcileEditedLineWords ext order base proposed identity revision = .ok result) :
    ∃ pageID claims state, OneLineSave canvasURI base proposed line
      (lineInput ext identity pageID revision base proposed claims) state result := by
  have retexted := draft.retexted
  obtain ⟨pageID, claims, removed, state, _, cascaded, saved⟩ :=
    saved_of_ok page (retexted.canonical page) done
  have save := saved.save
  have noneRemoved := removedLineWords_none retexted.no_removed_lines cascaded
  subst noneRemoved
  have view := save.view_retexted retexted draft.isLine
  have listed : ∀ lineID, lineID ∈ order.visit .existingLines
      (pageIndex base proposed).existingLineIDs ↔
      lineID ∈ (linesOf base).map Located.id :=
        fun lineID => saved.existing.trans retexted.existing_iff
  have isListed := (listed line.id).mpr (mem_map_of_mem draft.isLine)
  -- The other lines are as committed, so their steps are idle.
  have kept : ∀ other ∈ (linesOf base).map Located.id, other ≠ line.id →
      ((lineInput ext identity pageID revision base proposed claims).view proposed other).decision =
          .keep := by
    intro otherID isOtherID apart
    obtain ⟨other, isOther, rfl⟩ := mem_map.mp isOtherID
    obtain ⟨sameLine, sameWords⟩ := draft.other_line page isOther apart
    rw [save.view_retexted retexted isOther]
    exact (retextView_untouched (lineInput ext identity pageID revision base proposed claims)
      sameLine sameWords).1
  have onlyLine : ∀ other word, word ∈ generatedFor state other → other = line.id := by
    intro other word member
    obtain ⟨isOther, decided, _⟩ := saved.generated_edited member
    by_contra apart
    rw [kept other ((listed other).mp isOther) apart] at decided
    cases decided
  refine ⟨pageID, claims, state, ?_⟩
  exact
    { save, view
      items := by
        rw [saved.made.items]
        exact draft.items_eq page save saved.lines_nodup listed
      removed := by
        intro id
        rw [saved.made.removed]
        constructor
        · rintro (none | ⟨other, isOther, decided, isID⟩)
          · cases none
          · by_cases apart : other = line.id
            · subst apart
              rw [view] at decided isID
              exact ⟨decided, isID⟩
            · rw [kept other ((listed other).mp isOther) apart] at decided
              cases decided
        · rintro ⟨decided, isID⟩
          refine .inr ⟨line.id, isListed, ?_⟩
          rw [view]
          exact ⟨decided, isID⟩
      others := fun other apart => eq_nil_iff_forall_not_mem.mpr fun word member =>
        apart (onlyLine other word member)
      unedited := by
        intro notEdited
        apply eq_nil_iff_forall_not_mem.mpr
        intro word member
        have decided := (saved.generated_edited member).2.1
        rw [view] at decided
        exact notEdited decided
      edited := by
        intro decided
        have edited := saved.made.edited line.id isListed
        rw [view] at edited
        obtain ⟨used, words, known, isEdited, got⟩ := edited decided
        refine ⟨used, ?_, by rw [generatedFor, got]; exact isEdited⟩
        rw [← initialUsedIDs_eq (retexted.canonical page)]
        exact known
      saved := ⟨_, saved⟩ }

end

section
variable {canvasURI : String} {base proposed result : List Json} {line : Located}
  {input : ReconcileInput} {state : ReconcileState}
  (draft : RetextedLine base proposed line (wordsOwnedBy base none line.id))
  (one : OneLineSave canvasURI base proposed line input state result)
include draft one

omit draft in
theorem OneLineSave.getElem?_of_ne {i : Nat} (apart : line.index ≠ i) :
    state.items[i]? = proposed[i]? := by
  rw [one.items, getElem?_set_ne apart]

theorem OneLineSave.word_item {word : Located} (isWord : word ∈ wordsOf base) :
    word.refresh proposed ∈ wordsOf proposed ∧ .obj (word.refresh proposed).anno ∈ state.items := by
  have here : word.refresh proposed ∈ wordsOf proposed := by
    rw [wordsOf, draft.retexted.locatedOf_eq]
    exact mem_map_of_mem isWord
  refine ⟨here, mem_of_getElem? ?_ (i := word.index)⟩
  rw [one.getElem?_of_ne (one.save.pageBase.line_ne_word draft.isLine isWord)]
  exact one.save.pageProposed.located_item here

theorem OneLineSave.mem_result {item : Json} :
    item ∈ result ↔ (item ∈ state.items ∧ isDropped state item = false) ∨
      ∃ word ∈ generatedFor state line.id, item = .obj word := by
  obtain ⟨lineIDs, saved⟩ := one.saved
  have page := one.save.pageProposed
  rw [saved.perm.mem_iff, saved.mem_assembled]
  apply or_congr_right
  constructor
  · rintro ⟨source, _, _, _, word, member, rfl⟩
    by_cases same : itemID source = line.id
    · exact ⟨word, same ▸ member, rfl⟩
    · rw [one.others _ same] at member
      cases member
  · rintro ⟨word, member, rfl⟩
    have refreshed : line.refresh proposed ∈ linesOf proposed := by
      rw [linesOf, draft.retexted.locatedOf_eq]
      exact mem_map_of_mem draft.isLine
    have inside : line.index < proposed.length :=
      (List.getElem?_eq_some_iff.mp (page.located_item refreshed)).1
    have place : state.items[line.index]? = some (.obj (retextView base proposed line).savedLine) := by
      rw [one.items, getElem?_set_self inside]
    have sameID : itemID (.obj (retextView base proposed line).savedLine) = line.id := by
      rw [← draft.retexted.refresh_id draft.isLine]
      exact annStringValue_congr (LineView.savedLine_field _ (by decide) (by decide))
    have isLine : isGranularity (retextView base proposed line).savedLine "line" = true := by
      rw [isGranularity_congr _ (LineView.savedLine_field _ (by decide) (by decide))]
      exact (mem_locatedOf.mp refreshed).2.1
    have notWord : isGranularity (retextView base proposed line).savedLine "word" = false := by
      rw [isGranularity_congr _ (LineView.savedLine_field _ (by decide) (by decide))]
      exact line_not_word (page.located_canonical refreshed).level (mem_locatedOf.mp refreshed).2.1
    refine ⟨_, mem_of_getElem? place, ?_, isLine, word, sameID ▸ member, rfl⟩
    rw [isDropped, Json.toObject_obj, notWord, Bool.and_false]

theorem OneLineSave.keeps_others {item : Json} (member : item ∈ base) (notLine : itemID item ≠ line.id)
    (notWord : itemID item ∉ (wordsOwnedBy base none line.id).map Located.id) : item ∈ result := by
  obtain ⟨i, bound, rfl⟩ := getElem_of_mem member
  have place : base[i]? = some base[i] := getElem?_eq_getElem bound
  have apart : line.index ≠ i := by
    rintro rfl
    have here := one.save.pageBase.located_item draft.isLine
    rw [place] at here
    exact notLine (by rw [Option.some.inj here]; rfl)
  refine (one.mem_result draft).mpr (.inl ⟨mem_of_getElem? ?_ (i := i), ?_⟩)
  · rw [one.getElem?_of_ne apart]
    exact draft.others i _ place notLine notWord
  · have notRemoved : itemID base[i] ∉ state.removeWordIDs := fun isRemoved =>
      notWord ((one.removed _).mp isRemoved).2
    simp [isDropped, notRemoved]

end

end Scribe.Server
