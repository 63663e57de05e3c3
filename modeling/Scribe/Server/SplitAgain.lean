import Scribe.Server.SplitCalls

/-! Splitting into words again.

Done again, a split finds its own words behind its lines under the names it would
give. It refuses when another line took one of them, or it makes the same words: in
both cases the page stays as it is.
-/

set_option autoImplicit false

namespace Scribe.Server

open Attempt Iiif List

/-! ## The page after a split -/

section
variable {ext : Externals} {draft : AnnotationDraft} {seed : SplitPlan → String} {owned : List Nat}
  {splits : List WordSplit} (canonical : CanonicalDraft ext draft)
  (hexadecimal : ∀ seed, Text.IsField Text.unicodeSpace (ext.digest seed))
  (done : SplitDone ext draft seed owned splits)
  (distinct : ((splits.flatMap WordSplit.generated).map wordID).Nodup)

include canonical hexadecimal done in
theorem SplitDone.name_trimmed {split : WordSplit} (member : split ∈ splits) {word : Object}
    (listed : word ∈ split.generated) : Go.trimSpace (wordID word) = wordID word := by
  have pairs := mapM_ok_iff.mp (done.named split member)
  obtain ⟨i, inside, isID⟩ := getElem_of_mem (mem_map_of_mem (f := wordID) listed)
  have named := pairs.get (pairs.length_eq ▸ inside) inside
  rw [get_eq_getElem, get_eq_getElem, isID] at named
  exact structuralWordID_trimmed canonical hexadecimal named

include canonical done in
theorem SplitDone.name_free {split : WordSplit} (member : split ∈ splits) {word : Object}
    (listed : word ∈ split.generated) {index : Nat} {item : Json}
    (place : draft.items[index]? = some item) (isKept : index ∉ owned) :
    itemID item ≠ wordID word := by
  intro same
  have free := done.free split member word listed
  simp only [collides, ← same, canonical.page.plainPage.get_indexByID place,
    Bool.or_eq_false_iff] at free
  exact isKept (by simpa using free.1)

include canonical done in
theorem SplitDone.rewrite_itemID {index : Nat} {item : Json}
    (place : draft.items[index]? = some item) :
    itemID ((splitEdit owned splits).rewrite (item, index)) = itemID item := by
  rcases done.rewrite_cases canonical.page place with ⟨-, same⟩ | ⟨split, -, -, -, rfl, written⟩
  · rw [same]
  · rw [written]
    exact split.plan.written_samePlace.id.symm

include distinct in
theorem additions_distinct (items : List Json) :
    (((splitEdit owned splits).additions items).map itemID).Nodup := by
  rw [map_flatMap, nodup_flatMap] at distinct
  obtain ⟨each, apart⟩ := distinct
  have added_eq : ∀ index, ((splitEdit owned splits).added index).map itemID =
      ((splitAt splits index).map fun split => split.generated.map wordID).getD [] := by
    intro index
    cases found : splitAt splits index with
    | none => simp [splitEdit, found]
    | some split =>
      simp only [splitEdit, found, Option.map_some, Option.getD_some, map_map]
      rfl
  rw [Splice.additions, map_flatMap, nodup_flatMap]
  constructor
  · intro entry _
    rw [added_eq]
    cases found : splitAt splits entry.2 with
    | none => simp
    | some split => exact each split (splitAt_some found).1
  -- Two positions belong to different splits, whose words have different names.
  · have positions : (items.zipIdx.filter (·.2 ∉ (splitEdit owned splits).dropped)).Pairwise
        fun a b => a.2 < b.2 := by
      refine List.Pairwise.sublist filter_sublist ?_
      rw [← pairwise_map (R := (· < ·)), zipIdx_map_snd]
      exact pairwise_lt_range'
    refine positions.imp ?_
    intro a b less
    simp only [Function.onFun, added_eq]
    cases foundA : splitAt splits a.2 with
    | none => exact disjoint_nil_left _
    | some one =>
      cases foundB : splitAt splits b.2 with
      | none => exact disjoint_nil_right _
      | some other =>
        obtain ⟨inA, placeA⟩ := splitAt_some foundA
        obtain ⟨inB, placeB⟩ := splitAt_some foundB
        have symmetric : Std.Symm fun one other : WordSplit =>
            List.Disjoint (one.generated.map wordID) (other.generated.map wordID) :=
              ⟨fun _ _ apart => apart.symm⟩
        refine List.Pairwise.forall (R := fun one other : WordSplit =>
          List.Disjoint (one.generated.map wordID) (other.generated.map wordID)) apart inA inB ?_
        rintro rfl
        omega

include canonical hexadecimal done distinct in
theorem SplitDone.plainPage : PlainPage (splitResult draft owned splits) where
  plain item member := by
    obtain ⟨index, old, place, isKept, rfl | isAdded⟩ := (Splice.mem_apply _).mp member
    · have isPlain := canonical.page.plainPage.plain old (mem_of_getElem? place)
      rcases done.rewrite_cases canonical.page place with ⟨-, same⟩ | ⟨split, -, -, -, rfl, written⟩
      · rwa [same]
      · rw [written]
        have sameID : itemID (.obj split.plan.written) = itemID (.obj split.plan.line.anno) :=
          split.plan.written_samePlace.id.symm
        refine ⟨rfl, by rw [sameID]; exact isPlain.trimmed, ?_⟩
        have sameLevel : annStringValue split.plan.written "textGranularity" =
            annStringValue split.plan.line.anno "textGranularity" :=
          annStringValue_congr (field_setAnnotationText_of_ne _ _ (by decide))
        rw [Json.toObject_obj, sameLevel]
        exact isPlain.level
    · obtain ⟨split, found, word, listed, rfl⟩ := mem_splitEdit_added.mp isAdded
      have inSplits := (splitAt_some found).1
      refine ⟨rfl, done.name_trimmed canonical hexadecimal inSplits listed, ?_⟩
      rw [Json.toObject_obj, done.word_level inSplits listed]
      decide
  distinct := by
    refine Splice.nodup_map_apply _ itemID canonical.page.distinct
      (fun index item place => done.rewrite_itemID canonical place)
        (additions_distinct distinct draft.items) ?_
    intro index item place isKept isNew
    obtain ⟨new, isAdded, same⟩ := mem_map.mp isNew
    obtain ⟨entry, -, inAdded⟩ := mem_flatMap.mp isAdded
    obtain ⟨split, found, word, listed, rfl⟩ := mem_splitEdit_added.mp inAdded
    exact done.name_free canonical (splitAt_some found).1 listed place isKept same.symm

/-! ## Doing it again -/

def splitDraft (draft : AnnotationDraft) (items : List Json) (rawBytes : Nat) : AnnotationDraft :=
  { draft with items, rawBytes }

section
variable {rawBytes : Nat} {seedAgain : SplitPlan → String} {ownedAgain : List Nat}
  {splitsAgain : List WordSplit}
  (doneAgain : SplitDone ext (splitDraft draft (splitResult draft owned splits) rawBytes)
    seedAgain ownedAgain
    splitsAgain)
include canonical hexadecimal done distinct doneAgain

theorem SplitDone.again_split {split other : WordSplit} (member : split ∈ splits)
    (inAgain : other ∈ splitsAgain) (sameID : other.plan.line.id = split.plan.line.id)
    (sameWords : other.plan.words = split.plan.words)
    (sameSeed : seedAgain other.plan = seed split.plan) {position : Nat}
    (headAt : (splitResult draft owned splits)[position]? = some (.obj split.plan.written)) :
    other.plan.line.index = position ∧ other.plan.written = split.plan.written ∧
      other.generated = split.generated := by
  have plain : PlainPage (splitDraft draft (splitResult draft owned splits) rawBytes).items :=
    done.plainPage canonical hexadecimal distinct
  have otherItem := plain.line_item (doneAgain.lines other inAgain)
  have isIndex : other.plan.line.index = position := by
    refine plain.index_eq otherItem headAt ?_
    exact sameID.trans split.plan.written_samePlace.id
  have isAnno : other.plan.line.anno = split.plan.written := by
    rw [isIndex] at otherItem
    exact Json.obj.inj (Option.some.inj (otherItem.symm.trans headAt))
  have isBox : other.plan.line.box = split.plan.line.box := by
    have parsed := (mem_locatedOf.mp (doneAgain.lines other inAgain)).2.2
    rw [isAnno, ← split.plan.written_samePlace.box,
      (mem_locatedOf.mp (done.lines split member)).2.2] at parsed
    exact (Except.ok.inj parsed).symm
  have isWritten : other.plan.written = split.plan.written := by
    rw [SplitPlan.written, isAnno, sameWords]
    exact setAnnotationText_again _ _
  have sameNames : other.generated.map wordID = split.generated.map wordID := by
    have named := doneAgain.named other inAgain
    rw [sameWords, sameSeed] at named
    exact Except.ok.inj (named.symm.trans (done.named split member))
  refine ⟨isIndex, isWritten, ?_⟩
  have derived := doneAgain.derived other inAgain
  rw [isWritten, isBox, sameWords, sameNames] at derived
  exact Except.ok.inj (derived.symm.trans (done.derived split member))

/-- A second split of the same lines into the same words under the same names changes nothing. -/
theorem SplitDone.again (noMore : ∀ other ∈ splitsAgain, ∃ split ∈ splits,
      split.plan.line.id = other.plan.line.id)
    (repeated : ∀ split ∈ splits, ∃ other ∈ splitsAgain, other.plan.line.id = split.plan.line.id ∧
      other.plan.words = split.plan.words ∧ seedAgain other.plan = seed split.plan) :
    splitResult (splitDraft draft (splitResult draft owned splits) rawBytes) ownedAgain splitsAgain =
      splitResult draft owned splits := by
  have page := canonical.page
  have plain : PlainPage (splitDraft draft (splitResult draft owned splits) rawBytes).items :=
    done.plainPage canonical hexadecimal distinct
  -- What the second split drops are words of lines that the first one split.
  have droppedAgain : ∀ k ∈ ownedAgain, ∃ split ∈ splits, ∃ word box,
      SpatialAt (splitResult draft owned splits) "word" k word box ∧
        OwnedBy draft.items none word box split.plan.line.id := by
    intro k isDropped
    obtain ⟨other, inAgain, word, box, place, isOwned⟩ := doneAgain.dropped_word isDropped
    obtain ⟨split, member, sameID⟩ := noMore other inAgain
    exact ⟨split, member, word, box, place, sameID ▸ (done.ownedBy_iff page).mp isOwned⟩
  refine Splice.apply_fixed (splitEdit owned splits) ?_
  intro index item before after place isKept whole
  have headAt : (splitResult draft owned splits)[before.length]? =
      some ((splitEdit owned splits).rewrite (item, index)) := by
    rw [splitResult, whole]
    simp [Splice.block]
  rcases done.rewrite_cases page place with ⟨none, same⟩ | ⟨split, member, found, isHere, rfl, written⟩
  · -- An item that is no split line stays alone and is not dropped.
    rw [same] at headAt
    have noneAgain : splitAt splitsAgain before.length = .none := by
      refine Option.eq_none_iff_forall_ne_some.mpr fun other foundAgain => ?_
      obtain ⟨inAgain, isPlace⟩ := splitAt_some foundAgain
      obtain ⟨split, member, sameID⟩ := noMore other inAgain
      have otherItem := plain.line_item (doneAgain.lines other inAgain)
      rw [isPlace] at otherItem
      have isItem : item = .obj other.plan.line.anno := Option.some.inj (headAt.symm.trans otherItem)
      have isIndex :=
        page.index_eq_of_id place (done.line_item page member) (by rw [isItem]; exact sameID.symm)
      rw [isIndex, splitAt_of_mem done.distinct member] at none
      cases none
    refine ⟨fun isDropped => ?_, ?_, ?_⟩
    · obtain ⟨split, member, word, box, placeAgain, isOwned⟩ := droppedAgain _ isDropped
      cases headAt.symm.trans placeAgain.item
      exact done.owner_of_kept member ⟨place, placeAgain.isLevel, placeAgain.parsed,
        placeAgain.onCanvas⟩ isKept isOwned
    · rw [same, splitEdit_block_of_none noneAgain, splitEdit_block_of_none none]
    · simp [splitEdit, none]
  · rw [written] at headAt ⊢
    obtain ⟨other, inAgain, sameID, sameWords, sameSeed⟩ := repeated split member
    obtain ⟨isIndex, sameWritten, sameGenerated⟩ :=
      done.again_split canonical hexadecimal distinct doneAgain member inAgain sameID sameWords
        sameSeed headAt
    have foundAgain : splitAt splitsAgain before.length = some other :=
      isIndex ▸ splitAt_of_mem doneAgain.distinct inAgain
    refine ⟨fun isDropped => ?_, ?_, ?_⟩
    · obtain ⟨-, -, word, box, placeAgain, -⟩ := droppedAgain _ isDropped
      have isWord := placeAgain.isLevel
      rw [← Json.obj.inj (Option.some.inj (headAt.symm.trans placeAgain.item)),
        done.written_notWord page member] at isWord
      cases isWord
    · rw [splitEdit_block_of_some foundAgain, splitEdit_block_of_some found, sameWritten,
        sameGenerated]
    · -- The names of the words are taken by the words themselves, so these are among the dropped.
      intro j inside
      have inGenerated : j < split.generated.length := by simpa [splitEdit, found] using inside
      obtain ⟨word, listed⟩ : ∃ word,
        split.generated[j]? = some word := ⟨_, getElem?_eq_getElem inGenerated⟩
      have wordAt : (splitResult draft owned splits)[before.length + 1 + j]? = some (.obj word) := by
        rw [splitResult, whole, splitEdit_block_of_some found]
        exact Splice.getElem?_block (by rw [getElem?_map, listed]; rfl)
      have free := doneAgain.free other inAgain word (sameGenerated ▸ mem_of_getElem? listed)
      have isThere : Assoc.get (splitDraft draft (splitResult draft owned splits)
          rawBytes).indexByID (wordID word) =
          some (before.length + 1 + j) := plain.get_indexByID wordAt
      simp only [collides, isThere, Bool.or_eq_false_iff] at free
      simpa [splitEdit] using free.1

end

include canonical done in
theorem SplitDone.line_cases {line : Located}
    (isLine : line ∈ linesOf (splitResult draft owned splits)) :
    (∃ split ∈ splits, line.anno = split.plan.written) ∨
      ∃ old ∈ linesOf draft.items, old.anno = line.anno ∧ splitAt splits old.index = none := by
  obtain ⟨⟨item, listed, isItem⟩, level, parsed⟩ := mem_locatedOf.mp isLine
  obtain ⟨index, old, place, -, rfl | isAdded⟩ := (Splice.mem_apply _).mp (mem_of_getElem? listed)
  · rcases done.rewrite_cases canonical.page place with
        ⟨none, same⟩ | ⟨split, member, -, -, -, written⟩
    · rw [same] at isItem
      exact .inr ⟨⟨line.anno, index, line.box⟩,
        mem_locatedOf.mpr ⟨⟨old, place, isItem⟩, level, parsed⟩, rfl, none⟩
    · rw [written] at isItem
      exact .inl ⟨split, member, isItem.symm⟩
  · obtain ⟨split, found, word, isWord, rfl⟩ := mem_splitEdit_added.mp isAdded
    rw [← isItem, Json.toObject_obj, isGranularity,
      done.word_level (splitAt_some found).1 isWord] at level
    exact absurd level (by decide)

include done in
theorem SplitDone.written_text {split : WordSplit} (member : split ∈ splits) :
    extractAnnotationText split.plan.written =
      if textSetFirst (Json.field split.plan.line.anno "body") then Go.join split.plan.words
      else split.plan.line.text := by
  have joined : Go.trimSpace (Go.join split.plan.words) = Go.join split.plan.words :=
    Text.trim_join_of_trimmed (done.trimmed split member)
  exact extractAnnotationText_setAnnotationText_first _ joined
    (Text.join_ne_empty (done.filled split member) fun word listed =>
      (done.trimmed split member word listed).1)

end

/-! ## The same call again -/

/-- The items that a call leaves behind. -/
def itemsLeft : Except Refusal (List Json) → List Json
  | .ok items => items
  | .error refusal => refusal.items

section
variable {ext : Externals} {draft : AnnotationDraft} {call : SplitCall} {owned : List Nat}
  {splits : List WordSplit} (canonical : CanonicalDraft ext draft)
  (done : SplitDone ext draft call.seed owned splits)
  (isPlans : splits.map WordSplit.plan = call.plans draft.items)
include done isPlans

omit done in
theorem SplitCall.split_plan {split : WordSplit} (member : split ∈ splits) :
    call.selects split.plan.line = true ∧ split.plan.words = call.words split.plan.line := by
  have planned := isPlans ▸ mem_map_of_mem (f := WordSplit.plan) member
  obtain ⟨line, selected, same⟩ := mem_map.mp planned
  rw [← same]
  exact ⟨(mem_filter.mp selected).2, rfl⟩

theorem SplitCall.words_again {split : WordSplit} (member : split ∈ splits) {line : Located}
    (isWritten : line.anno = split.plan.written) : call.words line = split.plan.words := by
  have isWords := (SplitCall.split_plan isPlans member).2
  have fields_again : split.plan.words = Go.fields split.plan.line.text →
      Go.fields line.text = split.plan.words := by
    intro isFields
    rw [Located.text, isWritten, done.written_text member]
    split
    · refine Go.fields_join fun word listed => ?_
      rw [isFields] at listed
      exact Go.fields_isField _ _ listed
    · exact isFields.symm
  cases call with
  | line lineID requested =>
    simp only [SplitCall.words] at isWords ⊢
    split
    · rename_i unrequested
      rw [if_pos unrequested] at isWords
      exact fields_again isWords
    · rename_i isRequested
      rw [if_neg isRequested] at isWords
      exact isWords.symm
  | page => exact fields_again isWords

omit done in
theorem SplitCall.selects_again {split : WordSplit} (member : split ∈ splits) {line : Located}
    (isWritten : line.anno = split.plan.written) : call.selects line = true := by
  have selected := (SplitCall.split_plan isPlans member).1
  have sameID : line.id = split.plan.line.id := by
    rw [Located.id, isWritten]
    exact split.plan.written_samePlace.id.symm
  cases call with
  | line lineID requested => simpa [SplitCall.selects, sameID] using selected
  | page => rfl

include canonical

theorem SplitCall.plans_again {plan : SplitPlan}
    (planned : plan ∈ call.plans (splitResult draft owned splits)) :
    ∃ split ∈ splits, plan.line.anno = split.plan.written ∧ plan.words = split.plan.words := by
  obtain ⟨line, isSelected, rfl⟩ := mem_map.mp planned
  obtain ⟨isLine, selected⟩ := mem_filter.mp isSelected
  rcases done.line_cases canonical isLine with
      ⟨split, member, isWritten⟩ | ⟨old, isOld, sameAnno, none⟩
  · exact ⟨split, member, isWritten, SplitCall.words_again done isPlans member isWritten⟩
  · -- a line that stays was not selected the first time either
    have selectedBefore : call.selects old = true := by
      have sameID : old.id = line.id := by rw [Located.id, Located.id, sameAnno]
      cases call with
      | line lineID requested => simpa [SplitCall.selects, sameID] using selected
      | page => rfl
    have plannedBefore : (⟨old, call.words old⟩ : SplitPlan) ∈ splits.map WordSplit.plan := by
      rw [isPlans]
      exact mem_map.mpr ⟨old, mem_filter.mpr ⟨isOld, selectedBefore⟩, rfl⟩
    obtain ⟨split, member, same⟩ := mem_map.mp plannedBefore
    have found := splitAt_of_mem done.distinct member
    rw [same, none] at found
    cases found

theorem SplitCall.settled_again {plan : SplitPlan}
    (planned : plan ∈ call.plans (splitResult draft owned splits)) :
    textSettled plan.line plan.words := by
  obtain ⟨split, -, isWritten, sameWords⟩ := SplitCall.plans_again canonical done isPlans planned
  rw [textSettled, isWritten, sameWords]
  exact setAnnotationText_again _ _

theorem SplitCall.planned_again {split : WordSplit} (member : split ∈ splits) :
    ∃ position, (⟨⟨split.plan.written, position, split.plan.line.box⟩, split.plan.words⟩ : SplitPlan) ∈
      call.plans (splitResult draft owned splits) := by
  obtain ⟨before, after, whole, -⟩ := Splice.apply_around (splitEdit owned splits)
    (done.line_item canonical.page member) (done.line_kept canonical.page member)
  rw [splitEdit_block_of_some (splitAt_of_mem done.distinct member)] at whole
  have headAt : (splitResult draft owned splits)[before.length]? = some (.obj split.plan.written) := by
    rw [splitResult, whole]
    simp
  obtain ⟨-, level, parsed⟩ := mem_locatedOf.mp (done.lines split member)
  have isLine : (⟨split.plan.written, before.length, split.plan.line.box⟩ : Located) ∈
      linesOf (splitResult draft owned splits) := by
    refine mem_locatedOf.mpr ⟨⟨_, headAt, rfl⟩, ?_, split.plan.written_samePlace.box ▸ parsed⟩
    exact (isGranularity_congr "line" (field_setAnnotationText_of_ne split.plan.line.anno _
      (by decide))).trans level
  refine ⟨before.length, mem_map.mpr ⟨_,
    mem_filter.mpr ⟨isLine, SplitCall.selects_again isPlans member rfl⟩, ?_⟩⟩
  rw [SplitCall.words_again done isPlans member rfl]

/-- The same call on its own result changes nothing, whether it goes through or refuses. -/
theorem SplitCall.run_again (hexadecimal : ∀ seed, Text.IsField Text.unicodeSpace (ext.digest seed))
    (distinct : ((splits.flatMap WordSplit.generated).map wordID).Nodup) (rawBytes : Nat) :
    itemsLeft (call.run ext (splitDraft draft (splitResult draft owned splits) rawBytes)) =
      splitResult draft owned splits := by
  have plain : PlainPage (splitDraft draft (splitResult draft owned splits) rawBytes).items :=
    done.plainPage canonical hexadecimal distinct
  cases ran : call.run ext (splitDraft draft (splitResult draft owned splits) rawBytes) with
  | ok result =>
    obtain ⟨ownedAgain, splitsAgain, doneAgain, plansAgain, rfl, -⟩ := SplitCall.run_ok plain ran
    refine done.again canonical hexadecimal distinct doneAgain ?_ ?_
    · intro other inAgain
      obtain ⟨split, member, isWritten, -⟩ := SplitCall.plans_again canonical done isPlans
        (plansAgain ▸ mem_map_of_mem (f := WordSplit.plan) inAgain)
      refine ⟨split, member, ?_⟩
      rw [Located.id, Located.id, isWritten]
      exact split.plan.written_samePlace.id
    · intro split member
      obtain ⟨position, planned⟩ := SplitCall.planned_again canonical done isPlans member
      have inAgain := plansAgain.symm ▸ planned
      obtain ⟨other, isOther, same⟩ := mem_map.mp inAgain
      have sameID : other.plan.line.id = split.plan.line.id := by
        rw [same]
        exact split.plan.written_samePlace.id.symm
      refine ⟨other, isOther, sameID, by rw [same], ?_⟩
      cases call with
      | line lineID requested => rfl
      | page => simp only [SplitCall.seed, sameID]
  | error refusal =>
    -- every text that could be written is there already
    cases call with
    | line lineID requested =>
      refine (splitLine_guarded_iff ext _ lineID requested).mpr ?_ refusal ran
      intro checked passed
      exact .inr (SplitCall.settled_again canonical done isPlans
        (plain.lineSplit_plans passed ▸ mem_singleton_self _))
    | page =>
      refine (splitPage_guarded_iff ext _).mpr ?_ refusal ran
      intro plans passed before plan after split _ _
      have settled : ∀ plan ∈ plans, textSettled plan.line plan.words := fun plan member =>
        SplitCall.settled_again canonical done isPlans (pageSplitPlans_eq passed ▸ member)
      have inBefore : ∀ earlier ∈ before, earlier ∈ plans := fun earlier member =>
        split ▸ mem_append_left _ member
      refine ⟨fun _ earlier member => settled earlier (inBefore earlier member),
        fun _ _ earlier member => ?_⟩
      rcases mem_append.mp member with old | new
      · exact settled earlier (inBefore earlier old)
      · rw [mem_singleton.mp new]
        exact settled plan (split ▸ mem_append_right _ mem_cons_self)

end

end Scribe.Server
