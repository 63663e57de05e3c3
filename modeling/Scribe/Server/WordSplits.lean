import Scribe.Data.Splice
import Scribe.Server.AllOrNothing
import Scribe.Server.CarriedWords
import Scribe.Server.ExactTokens

/-! Splitting lines into words as an edit of the items.

A split of one line and a split of the page both drop the words that the split lines
own, set the texts of the lines and put the new words behind them. Neither touches
the place of a line, so every other word keeps its owner.
-/

set_option autoImplicit false

namespace Scribe.Server

open Attempt Iiif List

/-! ## The boxes of the words -/

theorem splitWordBox_left_lt (line : Box) {i j : Nat} (count : Nat) (less : i < j) :
    (splitWordBox line i count).x1 < (splitWordBox line j count).x1 :=
  Nat.add_lt_add_left (Nat.mul_lt_mul_of_pos_right less (by omega)) _

section
variable {line : Box} {count : Nat} (wide : count ≤ line.x2 - line.x1)
include wide

theorem splitWidth {i : Nat} (inside : i < count) :
    ∃ width, 0 < width ∧ count * width ≤ line.x2 - line.x1 ∧ splitWordBox line i count =
      ⟨line.x1 + i * width, line.y1, if i + 1 = count then line.x2 else line.x1 + i * width + width,
        line.y2⟩ := by
  have positive : 0 < line.x2 - line.x1 := by omega
  have fits : 0 < (line.x2 - line.x1) / count := Nat.div_pos wide (by omega)
  refine ⟨max 1 (max 1 (line.x2 - line.x1) / count), by omega, ?_, rfl⟩
  rw [Nat.max_eq_right positive, Nat.max_eq_right fits, Nat.mul_comm]
  exact Nat.div_mul_le_self _ _

theorem splitWordBox_bounds {i : Nat} (inside : i < count) :
    line.x1 ≤ (splitWordBox line i count).x1 ∧
      (splitWordBox line i count).x1 < (splitWordBox line i count).x2 ∧
      (splitWordBox line i count).x2 ≤ line.x2 := by
  obtain ⟨width, positive, fits, isBox⟩ := splitWidth wide inside
  rw [isBox]
  have within : (i + 1) * width ≤ count * width := Nat.mul_le_mul_right _ inside
  rw [Nat.succ_mul] at within
  simp only
  split
  · omega
  · omega

theorem splitWordBox_valid (valid : line.Valid) {i : Nat} (inside : i < count) :
    (splitWordBox line i count).Valid := by
  obtain ⟨-, positive, right⟩ := splitWordBox_bounds wide inside
  exact ⟨positive, valid.tall, le_trans right valid.right, valid.bottom⟩

theorem holds_splitWordBox (valid : line.Valid) {i : Nat} (inside : i < count) :
    line.holds (splitWordBox line i count) = true := by
  obtain ⟨left, positive, right⟩ := splitWordBox_bounds wide inside
  have tall := valid.tall
  have sameY : (splitWordBox line i count).y1 = line.y1 ∧
    (splitWordBox line i count).y2 = line.y2 := ⟨rfl, rfl⟩
  simp only [Box.holds, Bool.and_eq_true, decide_eq_true_eq, sameY]
  omega

theorem splitWordBoxes_tile (positive : 0 < count) :
    Tiles line.x1 line.x2 ((List.range count).map fun i =>
      ((splitWordBox line i count).x1, (splitWordBox line i count).x2)) := by
  have tiled :=
    @tiles_steps (fun i => if i = count then line.x2 else (splitWordBox line i count).x1) count 0 ?_
  · have first : (splitWordBox line 0 count).x1 = line.x1 := by simp [splitWordBox]
    simp only [Nat.zero_add, if_true, if_neg (Nat.ne_of_lt positive), first,
      ← range_eq_range'] at tiled
    convert tiled using 1
    apply map_congr_left
    intro i member
    have inside := mem_range.mp member
    rw [if_neg (Nat.ne_of_lt inside)]
    by_cases last : i + 1 = count
    · simp [splitWordBox, last]
    · simp only [splitWordBox, last, if_false, Nat.succ_mul, Nat.add_assoc]
  · intro i inside
    simp only [Nat.zero_add]
    rw [if_neg (Nat.ne_of_lt inside)]
    obtain ⟨-, less, right⟩ := splitWordBox_bounds wide inside
    split
    · omega
    · rename_i more
      simp only [splitWordBox, more, if_false, Nat.succ_mul] at less ⊢
      omega

end

/-! ## Who owns a word depends on the lines alone -/

def lineKey? (canvasURI : String) (item : Json) : Option (String × Box) :=
  (spatialLine? none canvasURI (item, 0)).map fun line => (line.id, line.box)

theorem spatialLines_keys (items : List Json) (canvasURI : String) :
    (spatialLines items none canvasURI).map (fun line => (line.id, line.box)) =
      items.filterMap (lineKey? canvasURI) := by
  have anyPlace : ∀ entry : Json × Nat,
      (spatialLine? none canvasURI entry).map (fun line => (line.id, line.box)) =
      lineKey? canvasURI entry.1 := by
    intro entry
    simp only [lineKey?, spatialLine?]
    cases spatialItem? entry.1 with
    | none => rfl
    | some parts =>
      simp only
      split <;> rfl
  rw [spatialLines, map_filterMap]
  have fromPairs : items.filterMap (lineKey? canvasURI) =
      items.zipIdx.filterMap fun entry => lineKey? canvasURI entry.1 := by
    rw [← zipIdx_map_fst 0 items, filterMap_map, zipIdx_map_fst]
    rfl
  rw [fromPairs]
  exact filterMap_congr fun entry _ => anyPlace entry

theorem ownedBy_of_sameLines {items result : List Json}
    (same : ∀ canvasURI, result.filterMap (lineKey? canvasURI) = items.filterMap
      (lineKey? canvasURI)) {word : Object}
    {box : Box} {lineID : String} : OwnedBy result none word box lineID ↔
      OwnedBy items none word box lineID := by
  have owner_eq : ∀ items : List Json,
      ownerOf items none (extractCanvasURI word, (⟨word, 0, box⟩ : Located).toSpatialWord) =
        ((items.filterMap (lineKey? (extractCanvasURI word))).find? fun key => key.2.holds box).map
            Prod.fst := by
    intro items
    rw [← spatialLines_keys, find?_map, Option.map_map]
    rfl
  rw [OwnedBy, OwnedBy, ← @ownerOf_eq_some_iff result none 0, ← @ownerOf_eq_some_iff items none 0,
    owner_eq, owner_eq, same]

theorem lineKey?_of_samePlace {a b : Object} (same : SamePlace a b) (canvasURI : String) :
    lineKey? canvasURI (.obj a) = lineKey? canvasURI (.obj b) := by
  simp only [lineKey?, spatialLine?, spatialItem?, same.box, same.canvas]
  cases annotationBox b with
  | error message => rfl
  | ok box =>
    by_cases unnamed : extractCanvasURI b = ""
    · simp [unnamed]
    · simp only [unnamed, if_false, same.id, same.level]

theorem lineKey?_of_not_line {anno : Object} (notLine : hasLowerGranularity anno "line" = false)
    (canvasURI : String) : lineKey? canvasURI (.obj anno) = none := by
  simp only [lineKey?, Option.map_eq_none_iff]
  refine Option.eq_none_iff_forall_ne_some.mpr fun line found => ?_
  obtain ⟨other, same, -, -, -, isLine, -⟩ := spatialLine?_eq_some.mp found
  cases same
  rw [notLine] at isLine
  cases isLine

/-! ## The edit of a split -/

def SplitPlan.written (plan : SplitPlan) : Object :=
  setAnnotationText plan.line.anno (Go.join plan.words)

def SplitPlan.share (plan : SplitPlan) (index : Nat) : Box :=
  splitWordBox plan.line.box index plan.words.length

theorem SplitPlan.written_samePlace (plan : SplitPlan) : SamePlace plan.line.anno plan.written :=
  .of_fields fun _ notBody => (field_setAnnotationText_of_ne _ _ notBody).symm

structure WordSplit where
  plan : SplitPlan
  generated : List Object

def splitAt (splits : List WordSplit) (index : Nat) : Option WordSplit :=
  splits.find? (·.plan.line.index = index)

/-- Owned words leave, the lines get their texts and the new words stand behind them. -/
def splitEdit (owned : List Nat) (splits : List WordSplit) : Splice Json where
  dropped := owned
  rewrite entry := ((splitAt splits entry.2).map fun split => Json.obj split.plan.written).getD entry.1
  added index := ((splitAt splits index).map fun split => split.generated.map Json.obj).getD []

/-- A draft whose page is validated and whose identifier is derived. -/
structure CanonicalDraft (ext : Externals) (draft : AnnotationDraft) : Prop where
  page : CanonicalPage (Go.trimSpace draft.identity.canvasURI) draft.items
  pageID : annotationPageID ext draft.identity.publicBaseURL draft.identity.itemImageID =
    .ok draft.pageID

/-- What a split that went through has checked and made. The seed is the identifier that the new
ones derive from. -/
structure SplitDone (ext : Externals) (draft : AnnotationDraft) (seed : SplitPlan → String)
    (owned : List Nat) (splits : List WordSplit) : Prop where
  lines : ∀ split ∈ splits, split.plan.line ∈ linesOf draft.items
  distinct : (splits.map (·.plan.line.index)).Nodup
  filled : ∀ split ∈ splits, split.plan.words ≠ []
  trimmed : ∀ split ∈ splits, ∀ word ∈ split.plan.words, word ≠ "" ∧ Go.trimSpace word = word
  wide : ∀ split ∈ splits, split.plan.words.length ≤ split.plan.line.box.x2 - split.plan.line.box.x1
  dropped : ∀ index, index ∈ owned ↔ ∃ split ∈ splits,
    ∃ word ∈ wordsOfLine (assignSpatialWordsToLines draft.items none) split.plan.line.id,
    word.index = index
  named : ∀ split ∈ splits, (List.range split.plan.words.length).mapM
    (structuralWordID ext draft.pageID (seed split.plan)) = .ok (split.generated.map wordID)
  free : ∀ split ∈ splits, ∀ word ∈ split.generated, collides draft owned (wordID word) = false
  derived : ∀ split ∈ splits, deriveSplitWords ext draft.identity.canvasURI split.plan.written
    split.plan.line.box
    split.plan.words (split.generated.map wordID) = .ok split.generated

section
variable {splits : List WordSplit} {owned : List Nat}

theorem splitAt_some {index : Nat} {split : WordSplit} (found : splitAt splits index = some split) :
    split ∈ splits ∧ split.plan.line.index = index :=
  ⟨mem_of_find?_eq_some found, by simpa using find?_some found⟩

theorem splitAt_of_mem (distinct : (splits.map (·.plan.line.index)).Nodup) {split : WordSplit}
    (member : split ∈ splits) : splitAt splits split.plan.line.index = some split := by
  induction splits with
  | nil => cases member
  | cons first rest ih =>
    obtain ⟨apart, restDistinct⟩ := nodup_cons.mp distinct
    rcases mem_cons.mp member with rfl | later
    · simp [splitAt]
    · have notFirst : first.plan.line.index ≠ split.plan.line.index := fun same =>
        apart (mem_map.mpr ⟨split, later, same.symm⟩)
      simpa [splitAt, notFirst] using ih restDistinct later

theorem splitEdit_rewrite_of_none {entry : Json × Nat} (none : splitAt splits entry.2 = .none) :
    (splitEdit owned splits).rewrite entry = entry.1 := by
  simp [splitEdit, none]

theorem splitEdit_block_of_some {entry : Json × Nat} {split : WordSplit}
    (found : splitAt splits entry.2 = some split) :
    (splitEdit owned splits).block entry = .obj split.plan.written :: split.generated.map
      Json.obj := by
  simp [splitEdit, Splice.block, found]

theorem splitEdit_block_of_none {entry : Json × Nat} (none : splitAt splits entry.2 = .none) :
    (splitEdit owned splits).block entry = [entry.1] := by
  simp [splitEdit, Splice.block, none]

theorem mem_splitEdit_added {index : Nat} {item : Json} :
    item ∈ (splitEdit owned splits).added index ↔
      ∃ split, splitAt splits index = some split ∧ ∃ word ∈ split.generated, item = .obj word := by
  cases found : splitAt splits index with
  | none => simp [splitEdit, found]
  | some split => simp [splitEdit, found, eq_comm]

end

section
variable {ext : Externals} {draft : AnnotationDraft} {seed : SplitPlan → String} {owned : List Nat}
  {splits : List WordSplit} (done : SplitDone ext draft seed owned splits) {split : WordSplit}
  (member : split ∈ splits)
include done member

theorem SplitDone.generated_length : split.generated.length = split.plan.words.length := by
  simpa using (mapM_ok_iff.mp (done.named split member)).length_eq.symm

theorem SplitDone.made {i : Nat} {word : Object} (listed : split.generated[i]? = some word) :
    ∃ token, split.plan.words[i]? = some token ∧
      deriveTextAnnotation ext split.plan.written (wordID word) "word" draft.identity.canvasURI
        (split.plan.share i)
        token = .ok word := by
  have inside := (List.getElem?_eq_some_iff.mp listed).1
  have inWords : i < split.plan.words.length := done.generated_length member ▸ inside
  obtain ⟨token, isToken⟩ : ∃ token,
    split.plan.words[i]? = some token := ⟨_, getElem?_eq_getElem inWords⟩
  have isID : (split.generated.map wordID)[i]? = some (wordID word) := by
    rw [getElem?_map, listed]
    rfl
  have zipped : (split.plan.words.zip (split.generated.map wordID))[i]? = some (token, wordID word) :=
    getElem?_zip_eq_some.mpr ⟨isToken, isID⟩
  have entry : ((split.plan.words.zip (split.generated.map wordID)).zipIdx)[i]? =
      some ((token, wordID word), i) := by
    rw [getElem?_zipIdx, zipped]
    simp
  have pairs := mapM_ok_iff.mp (done.derived split member)
  obtain ⟨inEntries, isEntry⟩ := List.getElem?_eq_some_iff.mp entry
  have made := pairs.get inEntries inside
  obtain ⟨_, isWord⟩ := List.getElem?_eq_some_iff.mp listed
  simp only [get_eq_getElem, isEntry, isWord] at made
  exact ⟨token, isToken, made⟩

end

/-! ## The items after a split -/

def splitResult (draft : AnnotationDraft) (owned : List Nat) (splits : List WordSplit) : List Json :=
  (splitEdit owned splits).apply draft.items

section
variable {ext : Externals} {draft : AnnotationDraft} {seed : SplitPlan → String} {owned : List Nat}
  {splits : List WordSplit} {split : WordSplit}
  (page : CanonicalPage (Go.trimSpace draft.identity.canvasURI) draft.items)
  (done : SplitDone ext draft seed owned splits)
include page done

section
variable (member : split ∈ splits)
include member

omit page in
theorem SplitDone.line_valid : split.plan.line.box.Valid :=
  Box.valid_of_parsed (mem_locatedOf.mp (done.lines split member)).2.2

theorem SplitDone.line_item : draft.items[split.plan.line.index]? = some (.obj split.plan.line.anno) :=
  page.located_item (done.lines split member)

theorem SplitDone.line_isLine : hasLowerGranularity split.plan.line.anno "line" = true := by
  have canonical := (page.located_canonical (done.lines split member)).level
  rw [Json.toObject_obj] at canonical
  rw [granularity_tests canonical (.inl rfl)]
  exact (mem_locatedOf.mp (done.lines split member)).2.1

theorem SplitDone.line_notWord : hasLowerGranularity split.plan.line.anno "word" = false := by
  have canonical := (page.located_canonical (done.lines split member)).level
  rw [Json.toObject_obj] at canonical
  rw [granularity_tests canonical (.inr rfl)]
  exact line_not_word canonical (mem_locatedOf.mp (done.lines split member)).2.1

theorem SplitDone.written_notWord : hasLowerGranularity split.plan.written "word" = false := by
  rw [← split.plan.written_samePlace.level]
  exact done.line_notWord page member

theorem SplitDone.line_spatialAt :
    SpatialAt draft.items "line" split.plan.line.index split.plan.line.anno split.plan.line.box where
  item := done.line_item page member
  isLevel := done.line_isLine page member
  parsed := (mem_locatedOf.mp (done.lines split member)).2.2
  onCanvas := by
    have canvas : extractCanvasURI split.plan.line.anno = _ :=
      (page.located_canonical (done.lines split member)).canvas
    rw [canvas]
    exact page.named

theorem SplitDone.written_canvas : extractCanvasURI split.plan.written =
      Go.trimSpace draft.identity.canvasURI := by
  rw [← split.plan.written_samePlace.canvas]
  exact (page.located_canonical (done.lines split member)).canvas

end

omit page in
theorem SplitDone.word_level (member : split ∈ splits) {word : Object}
    (listed : word ∈ split.generated) : annStringValue word "textGranularity" = "word" := by
  obtain ⟨i, place⟩ := mem_iff_getElem?.mp listed
  obtain ⟨token, -, made⟩ := done.made member place
  exact deriveTextAnnotation_level made

omit page in
theorem SplitDone.word_levels (member : split ∈ splits) {word : Object}
    (listed : word ∈ split.generated) :
    hasLowerGranularity word "word" = true ∧ hasLowerGranularity word "line" = false := by
  rw [hasLowerGranularity, hasLowerGranularity, done.word_level member listed]
  decide

theorem SplitDone.word_placed (member : split ∈ splits) {i : Nat} {word : Object}
    (listed : split.generated[i]? = some word) :
    Placed word (Go.trimSpace draft.identity.canvasURI) (split.plan.share i) := by
  obtain ⟨token, isToken, made⟩ := done.made member listed
  have inside := (List.getElem?_eq_some_iff.mp isToken).1
  exact (deriveTextAnnotation_reads made (splitWordBox_valid (done.wide split member)
    (done.line_valid member) inside)
    (done.written_canvas page member)).1

theorem SplitDone.rewrite_cases {index : Nat} {item : Json}
    (listed : draft.items[index]? = some item) :
    (splitAt splits index = none ∧ (splitEdit owned splits).rewrite (item, index) = item) ∨
      ∃ split ∈ splits, splitAt splits index = some split ∧ split.plan.line.index = index ∧
        item = .obj split.plan.line.anno ∧ (splitEdit owned splits).rewrite (item, index) = .obj
          split.plan.written := by
  cases found : splitAt splits index with
  | none => exact .inl ⟨rfl, splitEdit_rewrite_of_none found⟩
  | some split =>
    obtain ⟨member, isHere⟩ := splitAt_some found
    have place := done.line_item page member
    rw [isHere, listed] at place
    exact .inr ⟨split, member, rfl, isHere, Option.some.inj place, by simp [splitEdit, found]⟩

omit page in
theorem SplitDone.dropped_word {index : Nat} (isDropped : index ∈ owned) :
    ∃ split ∈ splits, ∃ word box, SpatialAt draft.items "word" index word box ∧
      OwnedBy draft.items none word box split.plan.line.id := by
  obtain ⟨split, member, word, listed, rfl⟩ := (done.dropped index).mp isDropped
  obtain ⟨place, isOwned⟩ := mem_wordsOfLine.mp listed
  exact ⟨split, member, word.anno, word.box, place, isOwned⟩

theorem SplitDone.line_kept (member : split ∈ splits) : split.plan.line.index ∉ owned := by
  intro isDropped
  obtain ⟨_, -, word, box, place, -⟩ := done.dropped_word isDropped
  have same := place.item
  rw [done.line_item page member] at same
  cases same
  have notWord := done.line_notWord page member
  rw [place.isLevel] at notWord
  cases notWord

theorem SplitDone.sameLines (canvasURI : String) :
    (splitResult draft owned splits).filterMap (lineKey? canvasURI) =
      draft.items.filterMap (lineKey? canvasURI) := by
  refine Splice.filterMap_apply _ _ ?_ ?_ ?_
  · intro index item listed isDropped
    obtain ⟨-, -, word, box, place, -⟩ := done.dropped_word isDropped
    cases listed.symm.trans place.item
    have level := (page.canonical _ (mem_of_getElem? listed)).level
    rw [Json.toObject_obj] at level
    refine lineKey?_of_not_line ?_ canvasURI
    rw [granularity_tests level (.inl rfl)]
    exact word_not_line place.isLevel
  · intro index item listed
    rcases done.rewrite_cases page listed with ⟨-, same⟩ | ⟨split, -, -, -, rfl, written⟩
    · rw [same]
    · rw [written]
      exact (lineKey?_of_samePlace split.plan.written_samePlace canvasURI).symm
  · intro index item isAdded
    obtain ⟨split, found, word, listed, rfl⟩ := mem_splitEdit_added.mp isAdded
    exact lineKey?_of_not_line (done.word_levels (splitAt_some found).1 listed).2 canvasURI

/-- A split changes no owner. -/
theorem SplitDone.ownedBy_iff {word : Object} {box : Box} {lineID : String} :
    OwnedBy (splitResult draft owned splits) none word box lineID ↔
      OwnedBy draft.items none word box lineID :=
  ownedBy_of_sameLines (done.sameLines page)

theorem SplitDone.share_owned (member : split ∈ splits) {i : Nat} {word : Object}
    (listed : split.generated[i]? = some word) :
    ∃ line ∈ linesOf draft.items, line.box.holds (split.plan.share i) = true ∧
      OwnedBy draft.items none word (split.plan.share i) line.id := by
  obtain ⟨token, isToken, -⟩ := done.made member listed
  have inside := (List.getElem?_eq_some_iff.mp isToken).1
  have may : MayOwn draft.items none split.plan.line.index split.plan.line.anno word
      (split.plan.share i) := by
    refine ⟨by simp, ?_, split.plan.line.box, done.line_spatialAt page member,
      holds_splitWordBox (done.wide split member) (done.line_valid member) inside⟩
    rw [(done.word_placed page member listed).canvas]
    exact (page.located_canonical (done.lines split member)).canvas
  obtain ⟨owner, position, ownerMay, -, isOwner⟩ := exists_naiveOwner may
  obtain ⟨box, place, holds⟩ := ownerMay.contains
  have canonical := page.canonical _ (mem_of_getElem? place.item)
  have isLine : (⟨owner, position, box⟩ : Located) ∈ linesOf draft.items := by
    refine mem_locatedOf.mpr ⟨⟨_, place.item, rfl⟩, ?_, place.parsed⟩
    have level := canonical.level
    rw [Json.toObject_obj] at level
    rw [← granularity_tests level (.inl rfl)]
    exact place.isLevel
  exact ⟨_, isLine, holds, owner, isOwner, rfl⟩

/-! ## The words of a split line -/

/-- No other line holds the centre of a new word. -/
def SplitsAlone (items : List Json) (plans : List SplitPlan) : Prop :=
  ∀ plan ∈ plans, ∀ i < plan.words.length, ∀ line ∈ linesOf items,
    line.box.holds (plan.share i) = true →
    line.id = plan.line.id

def WordSplit.Readable (split : WordSplit) : Prop :=
  ∀ i word, split.generated[i]? = some word → annotationBox word = .ok (split.plan.share i)

theorem SplitDone.share_owner (alone : SplitsAlone draft.items (splits.map WordSplit.plan))
    (member : split ∈ splits) {i : Nat} {word : Object} (listed : split.generated[i]? = some word) :
    OwnedBy draft.items none word (split.plan.share i) split.plan.line.id := by
  obtain ⟨line, isLine, holds, isOwned⟩ := done.share_owned page member listed
  have inside := (List.getElem?_eq_some_iff.mp listed).1
  rw [done.generated_length member] at inside
  rwa [← alone split.plan (mem_map_of_mem member) i inside line isLine holds]

def WordSplit.located (split : WordSplit) (start : Nat) : List Located :=
  split.generated.zipIdx.map fun entry => ⟨entry.1, start + entry.2, split.plan.share entry.2⟩

omit page done in
theorem WordSplit.located_sorted (split : WordSplit) (start : Nat) :
    (split.located start).Pairwise readBefore := by
  rw [WordSplit.located, pairwise_map]
  have increasing : split.generated.zipIdx.Pairwise fun a b => a.2 < b.2 := by
    rw [← pairwise_map (R := (· < ·)), zipIdx_map_snd]
    exact pairwise_lt_range'
  exact increasing.imp fun less => .inl (splitWordBox_left_lt _ _ less)

omit page done in
theorem OwnedBy.unique {items : List Json} {word : Object} {box : Box} {one other : String}
    (first : OwnedBy items none word box one) (second : OwnedBy items none word box other) :
    one = other := by
  rw [OwnedBy, ← @ownerOf_eq_some_iff items none 0] at first second
  exact Option.some.inj (first.symm.trans second)

omit page in
theorem SplitDone.owner_of_kept (member : split ∈ splits) {p : Nat} {word : Object} {box : Box}
    (place : SpatialAt draft.items "word" p word box) (isKept : p ∉ owned) :
    ¬ OwnedBy draft.items none word box split.plan.line.id := fun isOwned =>
  isKept ((done.dropped p).mpr ⟨split, member, ⟨word, p, box⟩,
    mem_wordsOfLine.mpr ⟨place, isOwned⟩, rfl⟩)

theorem SplitDone.words_of_line (alone : SplitsAlone draft.items (splits.map WordSplit.plan))
    (member : split ∈ splits) (readable : split.Readable) :
    ∃ start, wordsOfLine (assignSpatialWordsToLines (splitResult draft owned splits) none)
      split.plan.line.id =
      split.located start := by
  obtain ⟨before, after, whole, elsewhere⟩ :=
    Splice.apply_around (splitEdit owned splits) (done.line_item page member)
    (done.line_kept page member)
  rw [splitEdit_block_of_some (splitAt_of_mem done.distinct member)] at whole
  have placed : ∀ {i : Nat} {word : Object}, split.generated[i]? = some word →
      (splitResult draft owned splits)[before.length + 1 + i]? = some (.obj word) := by
    intro i word listed
    rw [splitResult, whole]
    exact Splice.getElem?_block (by rw [getElem?_map, listed]; rfl)
  -- Both lists are sorted strictly, so it is enough that they have the same members.
  refine ⟨before.length + 1, List.Pairwise.eq_of_mem_iff (r := readBefore) wordsOfLine_sorted
    (split.located_sorted _) fun word => ?_⟩
  constructor
  · intro listed
    obtain ⟨place, isOwned⟩ := mem_wordsOfLine.mp listed
    rw [done.ownedBy_iff page] at isOwned
    -- A word owned by this line stands between the line and what follows its words.
    have notElsewhere : Json.obj word.anno ∉ before ++ after := by
      intro isElsewhere
      obtain ⟨other, old, apart, listedOld, keptOld, isRewritten | isAdded⟩ := elsewhere _ isElsewhere
      · rcases done.rewrite_cases page listedOld with
            ⟨-, same⟩ | ⟨otherSplit, otherMember, -, -, -, written⟩
        · rw [same] at isRewritten
          subst isRewritten
          exact done.owner_of_kept member ⟨listedOld, place.isLevel, place.parsed, place.onCanvas⟩
            keptOld isOwned
        · have isWord := place.isLevel
          rw [Json.obj.inj (isRewritten.trans written),
            done.written_notWord page otherMember] at isWord
          cases isWord
      · obtain ⟨otherSplit, found, made, isMade, same⟩ := mem_splitEdit_added.mp isAdded
        cases same
        obtain ⟨otherMember, otherPlace⟩ := splitAt_some found
        obtain ⟨i, atI⟩ := mem_iff_getElem?.mp isMade
        rw [(done.word_placed page otherMember atI).box _ place.parsed] at isOwned
        have sameID := isOwned.unique (done.share_owner page alone otherMember atI)
        have sameLine :=
          page.located_eq_of_id (done.lines split member) (done.lines otherSplit otherMember) sameID
        exact apart (by rw [← otherPlace, sameLine])
    have here := place.item
    rw [splitResult, whole, append_assoc] at here
    -- By position: before the line, the line itself, one of its new words, or after them.
    by_cases early : word.index < before.length
    · rw [getElem?_append_left early] at here
      exact absurd (mem_append_left _ (mem_of_getElem? here)) notElsewhere
    · rw [getElem?_append_right (by omega), cons_append] at here
      obtain ⟨offset, isOffset⟩ : ∃ offset,
        word.index = before.length + offset := ⟨word.index - before.length, by omega⟩
      rw [isOffset, Nat.add_sub_cancel_left] at here
      cases offset with
      | zero =>
        have isWord := place.isLevel
        rw [← Json.obj.inj (Option.some.inj here), done.written_notWord page member] at isWord
        cases isWord
      | succ i =>
        rw [getElem?_cons_succ] at here
        by_cases inside : i < split.generated.length
        · rw [getElem?_append_left (by simpa using inside), getElem?_map] at here
          obtain ⟨made, isMade, same⟩ := Option.map_eq_some_iff.mp here
          cases same
          refine mem_map.mpr ⟨(word.anno, i), mem_zipIdx_iff_getElem?.mpr isMade, ?_⟩
          have isShare := (done.word_placed page member isMade).box _ place.parsed
          have isIndex : before.length + 1 + i = word.index := by omega
          simp only [← isShare, isIndex]
        · rw [getElem?_append_right (by simpa using inside)] at here
          exact absurd (mem_append_right _ (mem_of_getElem? here)) notElsewhere
  · intro listed
    obtain ⟨⟨made, i⟩, isEntry, rfl⟩ := mem_map.mp listed
    have isMade := mem_zipIdx_iff_getElem?.mp isEntry
    refine mem_wordsOfLine.mpr ⟨⟨placed isMade, (done.word_levels member (mem_of_getElem? isMade)).1,
      readable i made isMade, ?_⟩, (done.ownedBy_iff page).mpr (done.share_owner page alone
        member isMade)⟩
    rw [(done.word_placed page member isMade).canvas]
    exact page.named

end

end Scribe.Server
