import Scribe.Server.SplitAgain

/-! When a split into words is exact.

The words of a split line have names of their own, tile its box and stand behind it in
the order of the tokens, every other item stays, and the call on its own result changes
nothing. Requested words may contain white space and a line may have a body in front
of its text: the joined text then has other tokens than the words.
-/

set_option autoImplicit false

namespace Scribe.Server

open Attempt Iiif List

/-! ## The property -/

def generatedWords (ext : Externals) (draft : AnnotationDraft) (seed : String) (plan : SplitPlan) :
    Except String (List Object) := do
  let ids ← (List.range plan.words.length).mapM (structuralWordID ext draft.pageID seed)
  deriveSplitWords ext draft.identity.canvasURI plan.written plan.line.box plan.words ids

def SplitCall.made (ext : Externals) (draft : AnnotationDraft) (call : SplitCall) : List WordSplit :=
  (call.plans draft.items).map fun plan =>
    ⟨plan, (generatedWords ext draft (call.seed plan) plan).toOption.getD []⟩

def formerWords (items : List Json) (plans : List SplitPlan) : List Nat :=
  plans.flatMap fun plan =>
    (wordsOfLine (assignSpatialWordsToLines items none) plan.line.id).map Located.index

/-- The words of a split line: their names, their boxes, and that the line has them and no
others. -/
structure ExactSplit (items : List Json) (plans : List SplitPlan) (result : List Json)
    (split : WordSplit) : Prop where
  count : split.generated.length = split.plan.words.length
  names : (split.generated.map wordID).Nodup
  tiled : ∃ boxes, split.generated.mapM annotationBox = .ok boxes ∧
    Tiles split.plan.line.box.x1 split.plan.line.box.x2 (boxes.map fun box => (box.x1, box.x2)) ∧
    ∀ box ∈ boxes, box.y1 = split.plan.line.box.y1 ∧ box.y2 = split.plan.line.box.y2
  owned : SplitsAlone items plans →
    (wordsOfLine (assignSpatialWordsToLines result none) split.plan.line.id).map Located.anno =
      split.generated ∧
    lineAndWordsSynchronized { split.plan.line with anno := split.plan.written }
      (wordsOfLine (assignSpatialWordsToLines result none) split.plan.line.id) = true

/-- A split is exact, and the same call on its result changes nothing. -/
structure SplitsExact (ext : Externals) (draft : AnnotationDraft) (call : SplitCall)
    (result : List Json) : Prop where
  items : result = splitResult draft (formerWords draft.items (call.plans draft.items))
    (call.made ext draft)
  lines : ∀ split ∈ call.made ext draft, ExactSplit draft.items (call.plans draft.items) result split
  again : ∀ rawBytes, itemsLeft (call.run ext (splitDraft draft result rawBytes)) = result

/-! ## The condition -/

/-- The tokens of the line's new text are the words. -/
def TextsAgree (plan : SplitPlan) : Prop :=
  if textSetFirst (Json.field plan.line.anno "body") then ∀ word ∈ plan.words,
    Text.IsField Text.unicodeSpace word
  else plan.words.length = 1 ∧ Text.IsField Text.unicodeSpace plan.line.text

/-- No two seeds of a line share their digest, its target takes the boxes of its words, and its new
text has the words as tokens unless another line holds one of them. -/
structure SplitClean (ext : Externals) (draft : AnnotationDraft) (call : SplitCall) : Prop where
  names : ∀ plan ∈ call.plans draft.items, ∀ i < plan.words.length, ∀ j < plan.words.length,
    structuralWordID ext draft.pageID (call.seed plan) i =
      structuralWordID ext draft.pageID (call.seed plan) j → i = j
  boxes : ∀ plan ∈ call.plans draft.items, ∀ i < plan.words.length,
    TakesBox ext (Json.field plan.line.anno "target") draft.identity.canvasURI (plan.share i)
  texts : SplitsAlone draft.items (call.plans draft.items) → ∀ plan ∈ call.plans draft.items,
    TextsAgree plan

/-! ## One line -/

section
variable {ext : Externals} {draft : AnnotationDraft} {seed : SplitPlan → String} {owned : List Nat}
  {splits : List WordSplit} {split : WordSplit}
  (page : CanonicalPage (Go.trimSpace draft.identity.canvasURI) draft.items)
  (done : SplitDone ext draft seed owned splits) (member : split ∈ splits)
include done member

theorem SplitDone.readable_iff :
    split.Readable ↔ ∀ i < split.plan.words.length,
      TakesBox ext (Json.field split.plan.line.anno "target") draft.identity.canvasURI
        (split.plan.share i) := by
  have sameTarget : Json.field split.plan.written "target" =
      Json.field split.plan.line.anno "target" :=
    field_setAnnotationText_of_ne _ _ (by decide)
  have sameLength := done.generated_length member
  constructor
  · intro readable i inside
    obtain ⟨word, listed⟩ : ∃ word, split.generated[i]? = some word :=
      ⟨_, getElem?_eq_getElem (sameLength ▸ inside)⟩
    obtain ⟨token, -, made⟩ := done.made member listed
    rw [← sameTarget]
    exact (deriveTextAnnotation_reads_iff made).2.mp (readable i word listed)
  · intro takes i word listed
    obtain ⟨token, isToken, made⟩ := done.made member listed
    refine (deriveTextAnnotation_reads_iff made).2.mpr ?_
    rw [sameTarget]
    exact takes i (List.getElem?_eq_some_iff.mp isToken).1

theorem SplitDone.names_nodup_iff :
    (split.generated.map wordID).Nodup ↔ ∀ i < split.plan.words.length, ∀ j < split.plan.words.length,
      structuralWordID ext draft.pageID (seed split.plan) i =
        structuralWordID ext draft.pageID (seed split.plan) j →
        i = j := by
  have pairs := mapM_ok_iff.mp (done.named split member)
  have sameLength : (split.generated.map wordID).length = split.plan.words.length := by
    rw [length_map, done.generated_length member]
  have named : ∀ i (inside : i < (split.generated.map wordID).length),
      structuralWordID ext draft.pageID (seed split.plan) i =
          .ok ((split.generated.map wordID).get ⟨i, inside⟩) := by
    intro i inside
    have pair := pairs.get (pairs.length_eq ▸ inside) inside
    simpa using pair
  rw [nodup_iff_injective_get]
  constructor
  · intro injective i inI j inJ same
    rw [named i (sameLength ▸ inI), named j (sameLength ▸ inJ)] at same
    exact congrArg Fin.val (injective (Except.ok.inj same))
  · intro apart i j same
    refine Fin.ext (apart i (sameLength ▸ i.2) j (sameLength ▸ j.2) ?_)
    rw [named i i.2, named j j.2, same]

include page in
theorem SplitDone.tiled_iff :
    (∃ boxes, split.generated.mapM annotationBox = .ok boxes ∧
      Tiles split.plan.line.box.x1 split.plan.line.box.x2 (boxes.map fun box => (box.x1, box.x2)) ∧
      ∀ box ∈ boxes, box.y1 = split.plan.line.box.y1 ∧ box.y2 = split.plan.line.box.y2) ↔
        split.Readable := by
  have sameLength := done.generated_length member
  constructor
  · rintro ⟨boxes, parsed, -⟩ i word listed
    obtain ⟨inside, isWord⟩ := List.getElem?_eq_some_iff.mp listed
    have pairs := mapM_ok_iff.mp parsed
    have pair := pairs.get inside (pairs.length_eq ▸ inside)
    rw [get_eq_getElem, isWord] at pair
    rw [pair, (done.word_placed page member listed).box _ pair]
  · intro readable
    refine ⟨(List.range split.plan.words.length).map split.plan.share, ?_, ?_, ?_⟩
    · rw [mapM_ok_iff, List.forall₂_iff_get]
      refine ⟨by simpa using sameLength, fun i inside inBoxes => ?_⟩
      simpa using readable i _ (getElem?_eq_getElem inside)
    · rw [map_map]
      exact splitWordBoxes_tile (done.wide split member)
        (length_pos_iff.mpr (done.filled split member))
    · rintro box isBox
      obtain ⟨i, -, rfl⟩ := mem_map.mp isBox
      exact ⟨rfl, rfl⟩

include page in
theorem SplitDone.word_text {i : Nat} {word : Object} (listed : split.generated[i]? = some word) :
    ∃ token, split.plan.words[i]? = some token ∧ Go.trimSpace (extractAnnotationText word) =
      if textSetFirst (Json.field split.plan.line.anno "body") then token
      else split.plan.line.text := by
  obtain ⟨token, isToken, made⟩ := done.made member listed
  obtain ⟨filled, trimmed⟩ := done.trimmed split member token (mem_of_getElem? isToken)
  have inside := (List.getElem?_eq_some_iff.mp isToken).1
  have reads :=
    (deriveTextAnnotation_reads made
      (splitWordBox_valid (done.wide split member) (done.line_valid member) inside)
      (done.written_canvas page member)).2 (by rwa [trimmed])
  rw [trimmed, SplitPlan.written, textLeads_setAnnotationText, ← SplitPlan.written,
    done.written_text member] at reads
  refine ⟨token, isToken, ?_⟩
  rw [reads]
  split
  · exact trimmed
  · rw [Located.text, extractAnnotationText_eq]
    exact trimSpace_bodyText _

include page in
theorem SplitDone.tokens_iff :
    Go.fields (extractAnnotationText split.plan.written) =
        split.generated.map (fun word => Go.trimSpace (extractAnnotationText word)) ↔
          TextsAgree split.plan := by
  have sameLength := done.generated_length member
  rw [done.written_text member, TextsAgree]
  cases first : textSetFirst (Json.field split.plan.line.anno "body") with
  | true =>
    have texts : split.generated.map (fun word => Go.trimSpace (extractAnnotationText word)) =
        split.plan.words := by
      apply ext_getElem?
      intro i
      rw [getElem?_map]
      cases listed : split.generated[i]? with
      | none =>
        rw [List.getElem?_eq_none_iff, sameLength] at listed
        rw [getElem?_eq_none listed]
        rfl
      | some word =>
        obtain ⟨token, isToken, reads⟩ := done.word_text page member listed
        rw [first, if_pos rfl] at reads
        rw [isToken, Option.map_some, reads]
    rw [if_pos rfl, if_pos rfl, texts]
    constructor
    · intro same word isWord
      rw [← same] at isWord
      exact Go.fields_isField _ _ isWord
    · exact Go.fields_join
  | false =>
    -- All words read as the text of the body in front.
    have texts : split.generated.map (fun word => Go.trimSpace (extractAnnotationText word)) =
        List.replicate split.plan.words.length split.plan.line.text := by
      rw [eq_replicate_iff]
      refine ⟨by rw [length_map, sameLength], ?_⟩
      intro text isText
      obtain ⟨word, isWord, rfl⟩ := mem_map.mp isText
      obtain ⟨i, listed⟩ := mem_iff_getElem?.mp isWord
      obtain ⟨token, -, reads⟩ := done.word_text page member listed
      rwa [first, if_neg Bool.false_ne_true] at reads
    rw [if_neg Bool.false_ne_true, if_neg Bool.false_ne_true, texts]
    have positive : 0 < split.plan.words.length := length_pos_iff.mpr (done.filled split member)
    constructor
    · intro same
      have isField : Text.IsField Text.unicodeSpace split.plan.line.text := by
        refine Go.fields_isField split.plan.line.text _ ?_
        rw [same]
        exact mem_replicate.mpr ⟨by omega, rfl⟩
      refine ⟨?_, isField⟩
      have one := congrArg List.length same
      rw [length_replicate, Go.fields_of_isField isField] at one
      simpa using one.symm
    · rintro ⟨one, isField⟩
      rw [one, Go.fields_of_isField isField]
      rfl

omit done member in
theorem located_map_anno (split : WordSplit) (start : Nat) :
    (split.located start).map Located.anno = split.generated := by
  rw [WordSplit.located, map_map]
  exact zipIdx_map_fst 0 split.generated

include page in
theorem SplitDone.owned_iff (alone : SplitsAlone draft.items (splits.map WordSplit.plan))
    (readable : split.Readable) :
    ((wordsOfLine (assignSpatialWordsToLines (splitResult draft owned splits) none)
      split.plan.line.id).map Located.anno =
        split.generated ∧
      lineAndWordsSynchronized { split.plan.line with anno := split.plan.written }
        (wordsOfLine (assignSpatialWordsToLines (splitResult draft owned splits) none)
          split.plan.line.id) = true) ↔
      TextsAgree split.plan := by
  obtain ⟨start, isWords⟩ := done.words_of_line page alone member readable
  have texts : (split.located start).map (fun word => Go.trimSpace word.text) =
      split.generated.map fun word => Go.trimSpace (extractAnnotationText word) := by
    rw [← located_map_anno split start, map_map]
    rfl
  rw [isWords, located_map_anno, lineAndWordsSynchronized, decide_eq_true_eq, texts,
    ← done.tokens_iff page member]
  exact and_iff_right rfl

end

/-! ## The whole call -/

theorem splitResult_congr {draft : AnnotationDraft} {owned other : List Nat} (splits : List WordSplit)
    (same : ∀ index, index ∈ owned ↔ index ∈ other) :
    splitResult draft owned splits = splitResult draft other splits := by
  rw [splitResult, splitResult, Splice.apply_eq, Splice.apply_eq]
  refine flatMap_congr fun entry _ => ?_
  change (if entry.2 ∈ owned then [] else _) = if entry.2 ∈ other then [] else _
  by_cases isOwned : entry.2 ∈ owned
  · rw [if_pos isOwned, if_pos ((same _).mp isOwned)]
  · rw [if_neg isOwned, if_neg fun isOther => isOwned ((same _).mpr isOther)]
    rfl

section
variable {ext : Externals} {draft : AnnotationDraft} {call : SplitCall} {owned : List Nat}
  {splits : List WordSplit} (done : SplitDone ext draft call.seed owned splits)
  (isPlans : splits.map WordSplit.plan = call.plans draft.items)
include done isPlans

theorem SplitCall.made_eq : call.made ext draft = splits := by
  have made : ∀ split ∈ splits, generatedWords ext draft (call.seed split.plan) split.plan = .ok
      split.generated :=
    fun split member => bind_ok_iff.mpr ⟨_, done.named split member, done.derived split member⟩
  rw [SplitCall.made, ← isPlans, map_map]
  conv_rhs => rw [← map_id splits]
  refine map_congr_left fun split member => ?_
  simp [made split member, Except.toOption]

theorem SplitCall.result_eq :
    splitResult draft owned splits =
      splitResult draft (formerWords draft.items (call.plans draft.items)) (call.made ext draft) := by
  rw [SplitCall.made_eq done isPlans]
  refine splitResult_congr splits fun index => ?_
  rw [done.dropped, formerWords, ← isPlans]
  simp only [mem_flatMap, mem_map, exists_exists_and_eq_and]

theorem SplitCall.names_distinct (page : CanonicalPage
      (Go.trimSpace draft.identity.canvasURI) draft.items)
    (each : ∀ split ∈ splits, (split.generated.map wordID).Nodup)
    (pageNames : call = .page → ((splits.flatMap WordSplit.generated).map wordID).Nodup) :
    ((splits.flatMap WordSplit.generated).map wordID).Nodup := by
  cases call with
  | page => exact pageNames rfl
  | line lineID requested =>
    rw [map_flatMap, nodup_flatMap]
    refine ⟨each, ?_⟩
    have apart := done.distinct
    rw [List.Nodup, pairwise_map] at apart
    refine apart.imp_of_mem fun inA inB different => absurd ?_ different
    have selectedA := (SplitCall.split_plan isPlans inA).1
    have selectedB := (SplitCall.split_plan isPlans inB).1
    simp only [SplitCall.selects, decide_eq_true_eq] at selectedA selectedB
    rw [page.located_eq_of_id (done.lines _ inA) (done.lines _ inB) (selectedA.trans selectedB.symm)]

end

/-- A split into words that goes through is exact and repeatable exactly when the names of a line's
words differ, the line's target takes their boxes and its new text has them as tokens. -/
theorem split_words_exact_iff {ext : Externals} {draft : AnnotationDraft} {call : SplitCall}
    {result : List Json} (canonical : CanonicalDraft ext draft)
    (hexadecimal : ∀ seed, Text.IsField Text.unicodeSpace (ext.digest seed))
    (ran : call.run ext draft = .ok result) :
    SplitsExact ext draft call result ↔ SplitClean ext draft call := by
  have page := canonical.page
  obtain ⟨owned, splits, done, isPlans, rfl, pageNames⟩ := SplitCall.run_ok page.plainPage ran
  have isMade := SplitCall.made_eq done isPlans
  have ofPlan : ∀ plan ∈ call.plans draft.items, ∃ split ∈ splits,
      split.plan = plan := fun plan planned =>
    mem_map.mp (isPlans ▸ planned)
  constructor
  · intro exact
    have lines := exact.lines
    rw [isMade] at lines
    have readable : ∀ split ∈ splits, split.Readable := fun split member =>
      (done.tiled_iff page member).mp (lines split member).tiled
    refine ⟨fun plan planned => ?_, fun plan planned => ?_, fun alone plan planned => ?_⟩
    · obtain ⟨split, member, rfl⟩ := ofPlan plan planned
      exact (done.names_nodup_iff member).mp (lines split member).names
    · obtain ⟨split, member, rfl⟩ := ofPlan plan planned
      exact (done.readable_iff member).mp (readable split member)
    · obtain ⟨split, member, rfl⟩ := ofPlan plan planned
      exact (done.owned_iff page member (isPlans ▸ alone) (readable split member)).mp
        ((lines split member).owned alone)
  · intro clean
    have planned : ∀ split ∈ splits, split.plan ∈ call.plans draft.items := fun split member =>
      isPlans ▸ mem_map_of_mem member
    have names : ∀ split ∈ splits, (split.generated.map wordID).Nodup := fun split member =>
      (done.names_nodup_iff member).mpr (clean.names split.plan (planned split member))
    have readable : ∀ split ∈ splits, split.Readable := fun split member =>
      (done.readable_iff member).mpr (clean.boxes split.plan (planned split member))
    refine ⟨SplitCall.result_eq done isPlans, ?_, ?_⟩
    · rw [isMade]
      intro split member
      exact
        { count := done.generated_length member
          names := names split member
          tiled := (done.tiled_iff page member).mpr (readable split member)
          owned :=
            fun alone => (done.owned_iff page member (isPlans ▸ alone) (readable split member)).mpr
            (clean.texts alone split.plan (planned split member)) }
    -- Repeating the call needs distinct names only, whether or not the lines read as their words.
    · exact SplitCall.run_again canonical done isPlans hexadecimal
        (SplitCall.names_distinct done isPlans page names pageNames)

instance (ext : Externals) (target : Json) (canvasURI : String) (box : Box) :
    Decidable (TakesBox ext target canvasURI box) :=
  decidable_of_iff ((targetWithFragment ext target canvasURI box).toOption.map (fun rewritten =>
    decide (annotationBox [("target", .obj rewritten)] = .ok box)) = some true) (by
      unfold TakesBox
      cases targetWithFragment ext target canvasURI box with
      | error message => simp [Except.toOption]
      | ok rewritten => simp [Except.toOption])

instance (items : List Json) (plans : List SplitPlan) : Decidable (SplitsAlone items plans) :=
  inferInstanceAs (Decidable (∀ plan ∈ plans, ∀ i < plan.words.length, ∀ line ∈ linesOf items,
    line.box.holds (plan.share i) = true → line.id = plan.line.id))

instance (plan : SplitPlan) : Decidable (TextsAgree plan) :=
  inferInstanceAs (Decidable (if textSetFirst (Json.field plan.line.anno "body") then
      ∀ word ∈ plan.words, Text.IsField Text.unicodeSpace word
    else plan.words.length = 1 ∧ Text.IsField Text.unicodeSpace plan.line.text))

def visibleExternals : Externals :=
  { plainExternals with
    digest := fun seed => String.ofList ('x' :: seed.toList.map fun c =>
      if Text.unicodeSpace c = true ∨ c = Char.ofNat 0 then '-' else c) }

theorem visibleExternals_digest (seed : String) :
    Text.IsField Text.unicodeSpace (visibleExternals.digest seed) := by
  constructor
  · intro empty
    have none := congrArg String.toList empty
    simp [visibleExternals] at none
  · intro c member
    simp only [visibleExternals, String.toList_ofList, mem_cons, mem_map] at member
    rcases member with rfl | ⟨d, -, rfl⟩
    · decide
    · split
      · decide
      · rename_i visible
        simpa using fun isSpace => visible (.inl isSpace)

def wordsDraft (text : String) : AnnotationDraft where
  identity := plainIdentity
  pageID := "https://h/item-image-1/canvas/page-1/annotations"
  items := twoWordPage text "x" "y"
  rawBytes := 1000

theorem wordsDraft_canonical : CanonicalDraft visibleExternals (wordsDraft "a b") where
  page := by decide +kernel
  pageID := by decide +kernel

theorem split_words_exact_tokens :
    ∃ result, (SplitCall.line "L" []).run visibleExternals (wordsDraft "a b") = .ok result ∧
      SplitsExact visibleExternals (wordsDraft "a b") (.line "L" []) result := by
  obtain ⟨result, ran, -⟩ := exists_ok_of_toOption
    (show ((SplitCall.line "L" []).run visibleExternals (wordsDraft "a b")).toOption.map
        List.length = some 3 by
      decide +kernel)
  refine ⟨result, ran, (split_words_exact_iff wordsDraft_canonical visibleExternals_digest ran).mpr ?_⟩
  exact ⟨by decide +kernel, by decide +kernel, fun _ => by decide +kernel⟩

/-- A requested word with a space inside: the line then has three tokens and two words. -/
theorem spaced_word_desynchronizes :
    ∃ result, (SplitCall.line "L" ["a b", "c"]).run visibleExternals (wordsDraft "a b") = .ok result ∧
      SplitsAlone (wordsDraft "a b").items
        ((SplitCall.line "L" ["a b", "c"]).plans (wordsDraft "a b").items) ∧
      (wordsOfLine (assignSpatialWordsToLines result none) "L").map Located.text = ["a b", "c"] ∧
      ¬ SplitsExact visibleExternals (wordsDraft "a b") (.line "L" ["a b", "c"]) result := by
  have alone : SplitsAlone (wordsDraft "a b").items
      ((SplitCall.line "L" ["a b", "c"]).plans (wordsDraft "a b").items) := by decide +kernel
  obtain ⟨result, ran, evaluated⟩ := exists_ok_of_toOption
    (show ((SplitCall.line "L" ["a b", "c"]).run visibleExternals (wordsDraft "a b")).toOption.map
        (fun result =>
          ((wordsOfLine (assignSpatialWordsToLines result none) "L").map Located.text,
            (((SplitCall.line "L" ["a b", "c"]).made visibleExternals (wordsDraft "a b")).map
              fun split =>
                lineAndWordsSynchronized { split.plan.line with anno := split.plan.written }
                  (wordsOfLine (assignSpatialWordsToLines result none) split.plan.line.id)))) =
      some (["a b", "c"], [false]) by decide +kernel)
  obtain ⟨texts, apart⟩ := Prod.mk.inj evaluated
  refine ⟨result, ran, alone, texts, fun exact => ?_⟩
  obtain ⟨split, only, unsynchronized⟩ := map_eq_singleton_iff.mp apart
  have synchronized := ((exact.lines split (by rw [only]; exact mem_singleton_self _)).owned alone).2
  rw [unsynchronized] at synchronized
  cases synchronized

end Scribe.Server
