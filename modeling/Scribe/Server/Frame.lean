import Scribe.Server.Replacement
import Scribe.Server.Saved

/-! What a save leaves alone.

A save keeps every item that is neither a line nor a word, and every line. It takes
a word off the page only with its line or because the line's new text has no place
for it, and it adds words only for the tokens of a changed text.
-/

set_option autoImplicit false

namespace Scribe.Server

open Iiif List Attempt

/-! ## Identifiers of generated words -/

def IsEditID (ext : Externals) (pageID : String) (revision : Nat) (lineID : String)
    (tokens : List String) (id : String) : Prop :=
  ∃ index token nonce, tokens[index]? = some token ∧
    annotationID ext pageID (wordEditSeed lineID revision index token nonce) = .ok id

theorem availableFrom_named {ext : Externals} {pageID lineID token id : String}
    {revision index fuel nonce : Nat} {used : List String}
    (done : availableFrom ext pageID lineID revision index token used fuel nonce = .ok id) :
    ∃ nonce, annotationID ext pageID (wordEditSeed lineID revision index token nonce) = .ok id := by
  induction fuel generalizing nonce with
  | zero => cases done
  | succ fuel ih =>
    obtain ⟨candidate, named, chosen⟩ := bind_ok_iff.mp done
    split at chosen
    · exact ih chosen
    · exact ⟨nonce, pure_ok_iff.mp chosen ▸ named⟩

theorem tokens_named {edit : TokenEdit} {found : List TokenMatch} {tokens used : List String}
    {progress : TokenProgress} (done : tokens.zipIdx.foldlM (reconcileToken edit found)
      { generated := [], removed := edit.baseWords.map (·.id), usedIDs := used } = .ok progress) :
    ∀ word ∈ progress.generated, wordID word ∈ edit.baseWords.map Located.id ∨
      IsEditID edit.ext edit.pageID edit.expectedRevision edit.line.id tokens (wordID word) := by
  refine foldlM_invariant (fun _ progress => ∀ word ∈ progress.generated,
    wordID word ∈ edit.baseWords.map Located.id ∨
      IsEditID edit.ext edit.pageID edit.expectedRevision edit.line.id tokens (wordID word))
        done (by simp) ?_
  intro entries entry rest state next split named stepped
  have isToken : tokens[entry.2]? = some entry.1 :=
    mem_zipIdx_iff_getElem?.mp (split ▸ mem_append_right _ mem_cons_self)
  rcases reconcileToken_ok_iff.mp stepped with
      ⟨old, word, isMatched, made, rfl⟩ | ⟨id, word, _, isFree, made, rfl⟩
  · intro other member
    rcases mem_append.mp member with before | last
    · exact named other before
    · obtain ⟨_, _, _, place⟩ := matched_eq_some isMatched
      have isID : wordID word = old.id := updatedRetainedWord_id made
      rw [mem_singleton.mp last, isID]
      exact .inl (mem_map_of_mem (mem_of_getElem? place))
  · intro other member
    rcases mem_append.mp member with before | last
    · exact named other before
    · obtain ⟨nonce, isNamed⟩ := availableFrom_named isFree
      have isID : wordID word = id := deriveTextAnnotation_id made
      rw [mem_singleton.mp last, isID]
      exact .inr ⟨entry.2, entry.1, nonce, isToken, isNamed⟩

theorem LineRun.named {input : ReconcileInput} {view : String → LineView}
    {start final : ReconcileState} {lineIDs : List String}
    (run : LineRun input view start lineIDs final) (empty : start.generatedByLine = []) :
    ∀ lineID words, Assoc.get final.generatedByLine lineID = some words → ∀ word ∈ words,
      wordID word ∈ (view lineID).baseWords.map Located.id ∨
        IsEditID input.ext input.pageID input.expectedRevision (view lineID).proposedLine.id
          (view lineID).tokens
          (wordID word) := by
  refine run.invariant (fun _ state => ∀ lineID words,
    Assoc.get state.generatedByLine lineID = some words →
    ∀ word ∈ words, wordID word ∈ (view lineID).baseWords.map Located.id ∨
      IsEditID input.ext input.pageID input.expectedRevision (view lineID).proposedLine.id
        (view lineID).tokens
        (wordID word)) (by simp [empty]) ?_
  intro done lineID rest state next _ named step
  cases step with
  | settle _ _ => exact named
  | @edit bytes cells progress decided fits estimated edited =>
    obtain ⟨_, found, _, folded⟩ := reconcileLineTokens_ok_iff.mp edited
    intro other words got
    rw [Assoc.get_set] at got
    split at got
    · rename_i same
      subst same
      have mine := tokens_named folded
      rw [← Option.some.inj got, ← (view lineID).placedLine_id]
      exact mine
    · exact named other words got

theorem matched_generated {edit : TokenEdit} {found : List TokenMatch} {used tokens : List String}
    {progress : TokenProgress} (made : TokensMade edit found used tokens.zipIdx progress)
    (increasing : found.Pairwise TokenMatch.Before)
    (valid : ∀ pair ∈ found, pair.Valid edit.baseTokens tokens) {pair : TokenMatch}
    (member : pair ∈ found) {word : Located} (place : edit.baseWords[pair.baseIndex]? = some word) :
    word.id ∈ progress.generated.map wordID := by
  have isMatched : edit.matched found pair.tokenIndex = some word := by
    have first : found.reverse.find? (·.tokenIndex = pair.tokenIndex) = some pair := by
      rw [find?_unique]
      · simp [member]
      · intro a inA b inB atA atB
        have sameIndex : a.tokenIndex = b.tokenIndex :=
          (of_decide_eq_true atA).trans (of_decide_eq_true atB).symm
        by_contra apart
        have symmetric : Std.Symm fun a b : TokenMatch => a.tokenIndex ≠ b.tokenIndex :=
          ⟨fun _ _ ne => ne.symm⟩
        have related : found.Pairwise fun a b => a.tokenIndex ≠ b.tokenIndex :=
          increasing.imp fun before => Nat.ne_of_lt before.2
        exact related.forall (mem_reverse.mp inA) (mem_reverse.mp inB) apart sameIndex
    rw [TokenEdit.matched, first, Option.bind_some, place]
  obtain ⟨token, _, atToken⟩ := valid pair member
  have bound : pair.tokenIndex < tokens.length := (List.getElem?_eq_some_iff.mp atToken).1
  have inside : pair.tokenIndex < progress.generated.length := by
    rw [← made.words.length_eq, length_zipIdx]
    exact bound
  have here := (List.forall₂_iff_get.mp made.words).2 pair.tokenIndex (by simpa using bound) inside
  simp only [get_eq_getElem, getElem_zipIdx, Nat.zero_add] at here
  cases here with
  | retained matched' retains =>
    rw [isMatched] at matched'
    have isID : wordID progress.generated[pair.tokenIndex] = word.id :=
      (updatedRetainedWord_id retains).trans (congrArg Located.id (Option.some.inj matched').symm)
    exact mem_map.mpr ⟨_, getElem_mem inside, isID⟩
  | derived unmatched _ _ =>
    rw [isMatched] at unmatched
    cases unmatched

/-! ## The frame of a save -/

def isOtherItem (item : Json) : Bool :=
  !isGranularity item.toObject "line" && !isGranularity item.toObject "word"

def isWordItem (item : Json) : Bool := isGranularity item.toObject "word"

def wordItemIDs (items : List Json) : List String := (items.filter isWordItem).map itemID

theorem mem_wordItemIDs {items : List Json} {id : String} :
    id ∈ wordItemIDs items ↔ ∃ item ∈ items, isGranularity item.toObject "word" = true ∧
      itemID item = id := by
  simp only [wordItemIDs, mem_map, mem_filter, isWordItem, and_assoc]

def TextChanged (base proposed : List Json) (lineID : String) (new : Located) : Prop :=
  new ∈ linesOf proposed ∧ new.id = lineID ∧ ∃ old ∈ linesOf base, old.id = lineID ∧
    old.text ≠ new.text

/-- The alignment of a line's committed words with its new text leaves a word out. -/
def NoLongerMatched (base : List Json) (lineID : String) (new : Located) (wordID : String) : Prop :=
  ∃ cells rest found, longestCommonTokenMatches
      ((wordsOwnedBy base none lineID).map fun word => Go.trimSpace word.text)
        (Go.fields new.text) cells =
        .ok (found, rest) ∧
    ∀ pair ∈ found, ∀ word, (wordsOwnedBy base none lineID)[pair.baseIndex]? = some word →
      word.id ≠ wordID

/-- What a save keeps, removes and adds. -/
structure SaveFrame (ext : Externals) (pageID : String) (revision : Nat)
    (base proposed result : List Json) : Prop where
  distinct : (result.map itemID).Nodup
  others : result.filter isOtherItem = proposed.filter isOtherItem
  lines : ∀ id, id ∈ (result.filter isLineItem).map itemID ↔
    id ∈ (proposed.filter isLineItem).map itemID
  lost : ∀ word ∈ wordsOf proposed, word.id ∉ wordItemIDs result →
    ∃ owner, word.id ∈ (wordsOwnedBy base none owner).map Located.id ∧
      ((IsRemovedLine base proposed owner ∧ ¬ Replaced base proposed owner) ∨
        ∃ new, TextChanged base proposed owner new ∧ NoLongerMatched base owner new word.id)
  cascaded : ∀ owner, IsRemovedLine base proposed owner → ¬ Replaced base proposed owner →
    ∀ word ∈ wordsOwnedBy base none owner, word.id ∉ wordItemIDs result
  generated : ∀ item ∈ result, itemID item ∉ proposed.map itemID →
    isGranularity item.toObject "word" = true ∧ ∃ lineID new, TextChanged base proposed lineID new ∧
      IsEditID ext pageID revision lineID (Go.fields new.text) (itemID item)

section
variable {canvasURI : String} {base proposed : List Json} {input : ReconcileInput}
  {removed lineIDs : List String} {state : ReconcileState} {result : List Json}
  (saved : Saved canvasURI base proposed input removed lineIDs state result)
include saved

theorem Saved.edit_changes {lineID : String} (isLine : lineID ∈ lineIDs)
    (decided : (input.view proposed lineID).decision = .tokenEdit) :
    TextChanged base proposed lineID (input.view proposed lineID).proposedLine := by
  have existing := saved.existing.mp isLine
  obtain ⟨isProposed, sameID⟩ := saved.save.proposed_line existing
  obtain ⟨isBase, baseID⟩ := saved.save.lookup_base existing
  refine ⟨isProposed, sameID, (input.view proposed lineID).baseLine, ?_, ?_, ?_⟩
  · exact isBase
  · exact baseID
  · exact (decideLine_eq_tokenEdit.mp decided).1

theorem Saved.other_item {i : Nat} {item : Json} (here : proposed[i]? = some item)
    (other : isOtherItem item = true) : state.items[i]? = some item := by
  have page := saved.save.pageProposed
  simp only [isOtherItem, Bool.and_eq_true, Bool.not_eq_true'] at other
  have notLocated : ∀ granularity, granularity = "line" ∨ granularity = "word" →
      ∀ located ∈ locatedOf proposed granularity, located.index ≠ i := by
    intro granularity either located member same
    have place := page.located_item member
    rw [same, here] at place
    have level := (mem_locatedOf.mp member).2.1
    rw [Option.some.inj place] at other
    rcases either with rfl | rfl
    · rw [Json.toObject_obj, level] at other
      cases other.1
    · rw [Json.toObject_obj, level] at other
      cases other.2
  rw [saved.made.items, Patch.getElem?_apply_of_not_mem]
  · exact here
  · intro touched
    obtain ⟨write, isWrite, atI⟩ := mem_map.mp touched
    obtain ⟨lineID, isLine, written⟩ := mem_flatMap.mp isWrite
    have existing := saved.existing.mp isLine
    rcases saved.save.writes_of existing (mem_map_of_mem written) with line | ⟨word, isWord, atWord, _⟩
    · have isProposed := (saved.save.proposed_line existing).1
      exact notLocated "line" (.inl rfl) _ isProposed (atI ▸ line.symm)
    · exact notLocated "word" (.inr rfl) _ isWord (atI ▸ atWord)

theorem Saved.result_eq :
    result = preserveCommittedLineOwnershipOrder (state.items.flatMap (assembleItem state))
    (keyed (linesOf base)) := by
  have assembled := saved.assembled
  unfold assemble at assembled
  simp only at assembled
  split at assembled
  · cases assembled
  · exact (Except.ok.inj assembled).symm

theorem Saved.line_kept {item : Json} (member : item ∈ state.items)
    (isLine : isGranularity item.toObject "line" = true) : isDropped state item = false := by
  obtain ⟨i, other, _, atOther, same⟩ := saved.proposed_item member
  have level := (saved.save.pageProposed.canonical other (mem_of_getElem? atOther)).level
  rw [same.isGranularity_eq] at isLine
  rw [isDropped, same.isGranularity_eq, line_not_word level isLine, Bool.and_false]

theorem Saved.mem_result {item : Json} : item ∈ result ↔
    (item ∈ state.items ∧ isDropped state item = false) ∨
      ∃ lineID, ∃ word ∈ generatedFor state lineID, item = .obj word := by
  rw [saved.perm.mem_iff, saved.mem_assembled]
  apply or_congr_right
  constructor
  · rintro ⟨line, _, _, _, word, member, same⟩
    exact ⟨itemID line, word, member, same⟩
  · rintro ⟨lineID, word, member, same⟩
    obtain ⟨isLine, _, _⟩ := saved.generated_edited member
    obtain ⟨isProposed, sameID⟩ := saved.save.proposed_line (saved.existing.mp isLine)
    have place := saved.save.pageProposed.located_item isProposed
    obtain ⟨sameLength, each⟩ := List.forall₂_iff_get.mp saved.sameIdentity
    obtain ⟨bound, atLine⟩ := List.getElem?_eq_some_iff.mp place
    have inside : (input.view proposed lineID).proposedLine.index < state.items.length :=
      sameLength ▸ bound
    have identity := each _ inside bound
    simp only [get_eq_getElem, atLine] at identity
    have isLineItem : isGranularity
        (state.items[(input.view proposed lineID).proposedLine.index]).toObject "line" = true := by
      rw [identity.isGranularity_eq]
      exact (mem_locatedOf.mp isProposed).2.1
    refine ⟨_, getElem_mem inside, saved.line_kept (getElem_mem inside) isLineItem, isLineItem,
      word, ?_, same⟩
    have isID : itemID (.obj (input.view proposed lineID).proposedLine.anno) = lineID := sameID
    rw [identity.itemID_eq, isID]
    exact member

end

theorem filter_eq_of_agree {α : Type} {test : α → Bool} {xs ys : List α}
    (pairs : List.Forall₂ (fun x y => test x = test y ∧ (test y = true → x = y)) xs ys) :
    xs.filter test = ys.filter test := by
  induction pairs with
  | nil => rfl
  | @cons x y xs ys first _ ih =>
    obtain ⟨same, agree⟩ := first
    cases held : test y with
    | true => simp [held, agree held, ih]
    | false => simp [held, same, ih]

section
variable {canvasURI : String} {base proposed : List Json} {input : ReconcileInput}
  {removed lineIDs : List String} {state : ReconcileState} {result : List Json}
  (saved : Saved canvasURI base proposed input removed lineIDs state result)
include saved

theorem Saved.assembled_others : (state.items.flatMap (assembleItem state)).filter isOtherItem =
    state.items.filter isOtherItem := by
  rw [filter_flatMap]
  have each : ∀ item ∈ state.items, (assembleItem state item).filter isOtherItem =
      if isOtherItem item then [item] else [] := by
    intro item member
    have noneOther : ((generatedFor state (itemID item)).map Json.obj).filter isOtherItem = [] := by
      rw [filter_eq_nil_iff]
      intro other isOther
      obtain ⟨word, isWord, rfl⟩ := mem_map.mp isOther
      simp [isOtherItem, (saved.generated_isWord isWord).1]
    rw [assembleItem_eq state (saved.trimmed member)]
    cases isWord : isGranularity item.toObject "word" with
    | true =>
      cases isLine : isGranularity item.toObject "line" with
      | true => cases isDropped state item <;> simp [isOtherItem, isLine, noneOther]
      | false => cases isDropped state item <;> simp [isOtherItem, isWord]
    | false =>
      have kept : isDropped state item = false := by rw [isDropped, isWord, Bool.and_false]
      cases isLine : isGranularity item.toObject "line" with
      | true => simp [kept, isOtherItem, isLine, noneOther]
      | false => simp [kept, isOtherItem, isLine, isWord]
  have joined : (state.items.flatMap fun item => (assembleItem state item).filter isOtherItem) =
      state.items.flatMap fun item => if isOtherItem item then [item] else [] :=
    flatMap_congr each
  rw [joined]
  induction state.items with
  | nil => rfl
  | cons item rest ih => cases held : isOtherItem item <;> simp [held, ih]

theorem Saved.others : result.filter isOtherItem = proposed.filter isOtherItem := by
  have split : ∀ items : List Json, items.filter isOtherItem = (items.filter (!isLineItem ·)).filter
      isOtherItem := by
    intro items
    rw [filter_filter]
    apply filter_congr
    intro item _
    rw [isLineItem_eq, isOtherItem]
    cases isGranularity item.toObject "line" <;> simp
  rw [saved.result_eq, split, (preserveCommittedLineOwnershipOrder_spec _ _).1, ← split,
    saved.assembled_others]
  apply filter_eq_of_agree
  rw [List.forall₂_iff_get]
  obtain ⟨sameLength, each⟩ := List.forall₂_iff_get.mp saved.sameIdentity
  refine ⟨sameLength, fun i inState inProposed => ?_⟩
  have same := each i inState inProposed
  refine ⟨by simp only [isOtherItem, same.isGranularity_eq], fun other => ?_⟩
  have here := saved.other_item (getElem?_eq_getElem inProposed) other
  rw [getElem?_eq_getElem inState] at here
  exact Option.some.inj here

theorem Saved.line_ids (id : String) :
    id ∈ (result.filter isLineItem).map itemID ↔ id ∈ (proposed.filter isLineItem).map itemID := by
  obtain ⟨sameLength, each⟩ := List.forall₂_iff_get.mp saved.sameIdentity
  simp only [mem_map, mem_filter, isLineItem_eq]
  constructor
  · rintro ⟨item, ⟨member, isLine⟩, rfl⟩
    rcases saved.mem_result.mp member with ⟨inState, _⟩ | ⟨lineID, word, isWord, rfl⟩
    · obtain ⟨i, other, _, atOther, same⟩ := saved.proposed_item inState
      exact ⟨other, ⟨mem_of_getElem? atOther, same.isGranularity_eq "line" ▸ isLine⟩,
        same.itemID_eq.symm⟩
    · rw [Json.toObject_obj, (saved.generated_isWord isWord).2] at isLine
      cases isLine
  · rintro ⟨item, ⟨member, isLine⟩, rfl⟩
    obtain ⟨i, bound, rfl⟩ := getElem_of_mem member
    have inside : i < state.items.length := sameLength ▸ bound
    have same := each i inside bound
    simp only [get_eq_getElem] at same
    have isLineItem : isGranularity state.items[i].toObject "line" = true := by
      rw [same.isGranularity_eq]
      exact isLine
    have inResult :=
      saved.mem_result.mpr (.inl ⟨getElem_mem inside,
        saved.line_kept (getElem_mem inside) isLineItem⟩)
    exact ⟨state.items[i], ⟨inResult, isLineItem⟩, same.itemID_eq⟩

theorem Saved.word_in_state {word : Located} (isWord : word ∈ wordsOf proposed) :
    ∃ item ∈ state.items, itemID item = word.id ∧ isGranularity item.toObject "word" = true := by
  have place := saved.save.pageProposed.located_item isWord
  obtain ⟨sameLength, each⟩ := List.forall₂_iff_get.mp saved.sameIdentity
  obtain ⟨bound, atWord⟩ := List.getElem?_eq_some_iff.mp place
  have inside : word.index < state.items.length := sameLength ▸ bound
  have same := each _ inside bound
  simp only [get_eq_getElem, atWord] at same
  refine ⟨_, getElem_mem inside, same.itemID_eq, ?_⟩
  rw [same.isGranularity_eq]
  exact (mem_locatedOf.mp isWord).2.1

theorem Saved.lost_unmatched {lineID : String} (isLine : lineID ∈ lineIDs)
    (decided : (input.view proposed lineID).decision = .tokenEdit) {id : String}
    (absent : id ∉ wordItemIDs result) :
    NoLongerMatched base lineID (input.view proposed lineID).proposedLine id := by
  have baseWords : (input.view proposed lineID).baseWords = wordsOwnedBy base none lineID := by
    rw [saved.save.view_eq (saved.existing.mp isLine)]
  obtain ⟨used, words, _, edited, got⟩ := saved.made.edited lineID isLine decided
  obtain ⟨found, progress, cells, rest, aligned, made, rfl⟩ := edited.made
  obtain ⟨increasing, valid⟩ := longestCommonTokenMatches_valid aligned
  refine ⟨cells, rest, found, ?_, ?_⟩
  · rw [← baseWords]
    exact aligned
  · intro pair member word place same
    rw [← baseWords] at place
    obtain ⟨new, isNew, newID⟩ := mem_map.mp (matched_generated made increasing valid member place)
    have isMade : new ∈ generatedFor state lineID := by
      rw [generatedFor, got]
      exact isNew
    exact absent (mem_wordItemIDs.mpr ⟨.obj new,
      saved.mem_result.mpr (.inr ⟨lineID, new, isMade, rfl⟩), (saved.generated_isWord isMade).1,
      newID.trans same⟩)

end

/-- No item of a page has an identifier that an edit at this revision would make. -/
def EditIDsFresh (ext : Externals) (pageID : String) (revision : Nat) (items : List Json) : Prop :=
  ∀ lineID tokens id, IsEditID ext pageID revision lineID tokens id → id ∉ items.map itemID

/-- Reconciliation loses, duplicates and invents nothing but what the edits call for. -/
theorem reconcile_saveFrame {canvasURI : String} {base proposed result : List Json}
    (pageBase : CanonicalPage canvasURI base) (pageProposed : CanonicalPage canvasURI proposed)
    {ext : Externals} {order : IterationOrder} {identity : PageIdentity} {revision : Nat}
    {pageID : String}
    (named : annotationPageID ext identity.publicBaseURL identity.itemImageID = .ok pageID)
    (collisionFree : EditIDsFresh ext pageID revision base)
    (done : reconcileEditedLineWords ext order base proposed identity revision = .ok result) :
    SaveFrame ext pageID revision base proposed result := by
  obtain ⟨pageID', claims, removed, state, named', claimed, cascaded, _, ran, assembled⟩ :=
    (reconcileEditedLineWords_ok_iff_run pageBase pageProposed).mp done
  obtain rfl : pageID' = pageID := Except.ok.inj (named'.symm.trans named)
  have saved := saved_of_run pageBase pageProposed ran assembled
  have generatedNames := ran.named rfl
  have settled := (newLineClaims_ok pageProposed claimed).2
  have isRemoved := (removedLineWords_ok pageBase pageProposed settled cascaded).2
  -- A generated word has a committed word's identifier or one made for its token.
  have origin : ∀ lineID, ∀ word ∈ generatedFor state lineID,
      TextChanged base proposed lineID
        ((lineInput ext identity pageID' revision base proposed claims).view proposed
        lineID).proposedLine ∧ (wordID word ∈ (wordsOwnedBy base none lineID).map Located.id ∨
          IsEditID ext pageID' revision lineID
            (Go.fields ((lineInput ext identity pageID' revision base proposed
            claims).view proposed lineID).proposedLine.text) (wordID word)) := by
    intro lineID word member
    obtain ⟨isLine, decided, got⟩ := saved.generated_edited member
    have existing := saved.existing.mp isLine
    refine ⟨saved.edit_changes isLine decided, ?_⟩
    have isNamed := generatedNames lineID _ got word member
    rw [(saved.save.proposed_line existing).2] at isNamed
    rw [saved.save.view_eq existing] at isNamed ⊢
    exact isNamed
  refine
    { distinct := saved.ids_nodup, others := saved.others, lines := saved.line_ids, lost := ?_,
      cascaded := ?_
      generated := ?_ }
  · intro word isWord absent
    obtain ⟨item, inState, sameID, isWordItem⟩ := saved.word_in_state isWord
    have dropped : word.id ∈ state.removeWordIDs := by
      by_contra kept
      refine absent (mem_wordItemIDs.mpr ⟨item, saved.mem_result.mpr (.inl ⟨inState, ?_⟩),
        isWordItem, sameID⟩)
      simp [isDropped, sameID, kept]
    rcases (saved.made.removed _).mp dropped with initial | ⟨lineID, isLine, decided, mine⟩
    · obtain ⟨owner, gone, notReplaced, owned⟩ := (isRemoved word.id).mp initial
      exact ⟨owner, owned, .inl ⟨gone, notReplaced⟩⟩
    · refine ⟨lineID, ?_, .inr ⟨_, saved.edit_changes isLine decided,
        saved.lost_unmatched isLine decided absent⟩⟩
      rw [saved.save.view_eq (saved.existing.mp isLine)] at mine
      exact mine
  · intro owner gone notReplaced word member present
    obtain ⟨item, inResult, isWordItem, sameID⟩ := mem_wordItemIDs.mp present
    have owned := mem_map_of_mem (f := Located.id) member
    rcases saved.mem_result.mp inResult with ⟨inState, kept⟩ | ⟨lineID, new, isNew, rfl⟩
    · have isDroppedID : word.id ∈ state.removeWordIDs :=
        (saved.made.removed _).mpr (.inl ((isRemoved _).mpr ⟨owner, gone, notReplaced, owned⟩))
      rw [isDropped, sameID, isWordItem] at kept
      simp [isDroppedID] at kept
    · rcases (origin lineID new isNew).2 with retained | made
      · have sameLine := pageBase.owner_unique retained (show wordID new ∈ _ from sameID ▸ owned)
        subst sameLine
        exact gone.2 (saved.existing.mp (saved.generated_edited isNew).1).2
      · refine collisionFree _ _ _ made (mem_map.mpr ⟨.obj word.anno, ?_, sameID.symm⟩)
        exact mem_of_getElem? (pageBase.located_item (mem_wordsOwnedBy.mp member).1)
  · intro item inResult isNew
    rcases saved.mem_result.mp inResult with ⟨inState, _⟩ | ⟨lineID, new, member, rfl⟩
    · rw [← saved.item_ids] at isNew
      exact absurd (mem_map_of_mem inState) isNew
    · obtain ⟨changed, retained | made⟩ := origin lineID new member
      · obtain ⟨isLine, decided, _⟩ := saved.generated_edited member
        rw [← (saved.save.edit_words (saved.existing.mp isLine) decided).2] at retained
        obtain ⟨word, isFound, sameID⟩ := mem_map.mp retained
        have inPage := ((mem_proposedOwnedWords (pageProposed.ids_nodup "word")).mp isFound).1
        exact absurd (mem_map.mpr ⟨_, mem_of_getElem? (pageProposed.located_item inPage),
          sameID⟩) isNew
      · exact ⟨(saved.generated_isWord member).1, lineID, _, changed, made⟩

theorem reconcile_saveFrame_retyped :
    ∃ result, reconcileEditedLineWords plainExternals listedOrder (twoWordPage "a b" "a" "b")
        (twoWordPage "a c" "a" "c") plainIdentity 1 = .ok result ∧
      SaveFrame plainExternals "https://h/item-image-1/canvas/page-1/annotations" 1
        (twoWordPage "a b" "a" "b")
        (twoWordPage "a c" "a" "c") result := by
  obtain ⟨result, done, -⟩ := exists_ok_of_toOption
    (show (reconcileEditedLineWords plainExternals listedOrder (twoWordPage "a b" "a" "b")
      (twoWordPage "a c" "a" "c") plainIdentity 1).toOption.map List.length = some 3 by decide +kernel)
  have page : CanonicalPage "https://h/c" (twoWordPage "a b" "a" "b") := by decide +kernel
  have fresh : EditIDsFresh plainExternals "https://h/item-image-1/canvas/page-1/annotations" 1
      (twoWordPage "a b" "a" "b") := by
    rintro lineID tokens id ⟨index, token, nonce, _, made⟩ member
    have short : ∀ other ∈ (twoWordPage "a b" "a" "b").map itemID,
      other.length = 1 := by decide +kernel
    obtain ⟨_, _, named⟩ := bind_ok_iff.mp made
    simp only at named
    split at named
    · exact throw_ne_ok (bind_ok_iff.mp named).choose_spec.1
    · have isID := pure_ok_iff.mp named
      have long : 1 < id.length := by
        rw [← isID, String.length_append, String.length_append]
        have items : "/items/".length = 7 := by decide
        omega
      exact absurd (short id member) (Nat.ne_of_gt long)
  exact ⟨result, done, reconcile_saveFrame page (by decide +kernel) (by decide +kernel) fresh done⟩

end Scribe.Server
