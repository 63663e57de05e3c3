import Scribe.Server.ReadBack
import Scribe.Server.StructuralEdits

/-! When a refused structural edit leaves the draft as it was.

Both joins check everything on copies. A split into words writes the text of a line
before it derives the words, a page split does so line by line while later lines can
still be refused, and a split in two moves words while later outlines can still be
unreadable. For both splits into words a refusal is without effect exactly when what
was written by then is what was there before. A split in two is without effect when
every word can be moved, and otherwise only if the words before the first that
cannot be moved stand in their halves already.
-/

set_option autoImplicit false

namespace Scribe.Server

open Attempt Iiif List

variable {items : List Json}

theorem refusing_error_iff {α : Type} {attempt : Except String α} {refusal : Refusal} :
    refusing items attempt = .error refusal ↔ ∃ message, attempt = .error message ∧
      refusal = ⟨message, items⟩ := by
  cases attempt with
  | ok value => simp [refusing]
  | error message => simp [refusing, eq_comm]

theorem refusing_ok_iff {α : Type} {attempt : Except String α} {value : α} :
    refusing items attempt = .ok value ↔ attempt = .ok value := by
  cases attempt <;> simp [refusing]

theorem refusing_bind {α β : Type} (items : List Json) (attempt : Except String α)
    (next : α → Except String β) :
    refusing items (attempt >>= next) = refusing items attempt >>= fun value =>
      refusing items (next value) := by
  cases attempt <;> rfl

theorem refusing_pure {α : Type} (items : List Json) (value : α) :
    refusing items (pure value) = pure value := rfl

/-! ## Writing an item -/

section
variable {items : List Json} {located : Located}
  (place : items[located.index]? = some (.obj located.anno))
include place

theorem writeAt_eq_self_iff {anno : Object} : writeAt items located anno = items ↔
      anno = located.anno := by
  obtain ⟨inside, here⟩ := List.getElem?_eq_some_iff.mp place
  constructor
  · intro same
    have written : (writeAt items located anno)[located.index]? = some (.obj anno) := by
      simp [writeAt, inside]
    rw [same, place] at written
    simpa using written.symm
  · rintro rfl
    rw [writeAt, ← here, set_getElem_self]

end

def writeAll (items : List Json) (writes : List (Located × Object)) : List Json :=
  writes.foldl (fun items write => writeAt items write.1 write.2) items

/-- The writes stand for different items of the page. -/
structure WritesOf (items : List Json) (writes : List Located) : Prop where
  places : ∀ located ∈ writes, items[located.index]? = some (.obj located.anno)
  distinct : (writes.map Located.index).Nodup

theorem WritesOf.sublist {some all : List Located} (writesOf : WritesOf items all)
    (fewer : some.Sublist all) : WritesOf items some where
  places located member := writesOf.places located (fewer.subset member)
  distinct := writesOf.distinct.sublist (fewer.map _)

theorem getElem?_writeAll_of_ne {writes : List (Located × Object)} {index : Nat}
    (apart : index ∉ (writes.map Prod.fst).map Located.index) :
    (writeAll items writes)[index]? = items[index]? := by
  induction writes generalizing items with
  | nil => rfl
  | cons write rest ih =>
    obtain ⟨here, later⟩ : index ≠ write.1.index ∧ index ∉ (rest.map Prod.fst).map Located.index := by
      simpa only [map_cons, mem_cons, not_or] using apart
    rw [writeAll, foldl_cons]
    change (writeAll _ rest)[index]? = _
    rw [ih later, writeAt, getElem?_set_ne (Ne.symm here)]

theorem getElem?_writeAll_of_mem {writes : List (Located × Object)}
    (writesOf : WritesOf items (writes.map Prod.fst)) {write : Located × Object}
    (member : write ∈ writes) : (writeAll items writes)[write.1.index]? = some (.obj write.2) := by
  obtain ⟨before, after, rfl⟩ := append_of_mem member
  have place := writesOf.places write.1 (mem_map_of_mem member)
  have distinct := writesOf.distinct
  simp only [map_append, map_cons, nodup_append, nodup_cons] at distinct
  have notBefore : write.1.index ∉ (before.map Prod.fst).map Located.index := fun inside =>
    distinct.2.2 _ inside _ mem_cons_self rfl
  rw [writeAll, foldl_append, foldl_cons]
  change (writeAll (writeAt (writeAll items before) _ _) after)[_]? = _
  rw [getElem?_writeAll_of_ne distinct.2.1.1, writeAt, getElem?_set_self']
  rw [getElem?_writeAll_of_ne notBefore, place]
  rfl

/-- Nothing is changed exactly when every write repeats what was there. -/
theorem writeAll_eq_iff {writes : List (Located × Object)}
    (writesOf : WritesOf items (writes.map Prod.fst)) :
    writeAll items writes = items ↔ ∀ write ∈ writes, write.2 = write.1.anno := by
  constructor
  · intro same write member
    have written := getElem?_writeAll_of_mem writesOf member
    rw [same, writesOf.places write.1 (mem_map_of_mem member)] at written
    exact (Json.obj.inj (Option.some.inj written)).symm
  · intro settled
    induction writes with
    | nil => rfl
    | cons write rest ih =>
      have place := writesOf.places write.1 mem_cons_self
      have here := (writeAt_eq_self_iff place).mpr (settled write mem_cons_self)
      rw [writeAll, foldl_cons, here]
      exact ih (writesOf.sublist (sublist_cons_self _ _)) fun other later =>
        settled other (mem_cons_of_mem _ later)

/-! ## Deriving -/

def canDerive (ext : Externals) (canvasURI : String) (template : Object) (box : Box) : Bool :=
  (Json.obj template).nesting ≤ maxJSONNestingDepth &&
    (targetWithFragment ext (Json.field template "target") canvasURI box).isOk

variable {ext : Externals}

theorem derive_isOk_iff {template : Object} {id granularity canvasURI text : String} {box : Box} :
    (Except.isOk <| deriveTextAnnotation ext template id granularity canvasURI box text) = true ↔
      canDerive ext canvasURI template box = true := by
  simp only [isOk_iff, canDerive, Bool.and_eq_true, decide_eq_true_eq,
    deriveTextAnnotation_ok_iff, Copyable]
  constructor
  · rintro ⟨_, shallow, target, made, _⟩
    exact ⟨shallow, target, made⟩
  · rintro ⟨shallow, target, made⟩
    exact ⟨_, shallow, target, made, rfl⟩

def canDeriveWords (ext : Externals) (canvasURI : String) (template : Object) (box : Box)
    (count : Nat) : Prop :=
  ∀ index < count, canDerive ext canvasURI template (splitWordBox box index count) = true

theorem deriveSplitWords_isOk_iff {canvasURI : String} {line : Object} {box : Box}
    {words wordIDs : List String} (same : wordIDs.length = words.length) :
    (deriveSplitWords ext canvasURI line box words wordIDs).isOk = true ↔
      canDeriveWords ext canvasURI line box words.length := by
  simp only [deriveSplitWords, mapM_isOk_iff, derive_isOk_iff, canDeriveWords]
  constructor
  · intro all index inside
    obtain ⟨entry, place⟩ : ∃ entry, (words.zip wordIDs)[index]? = some entry :=
      List.getElem?_eq_some_iff.mpr ⟨by simpa [same] using inside, rfl⟩ |> fun found => ⟨_, found⟩
    exact all (entry, index) (mem_zipIdx_iff_getElem?.mpr place)
  · intro can entry listed
    obtain ⟨inside, -⟩ := List.getElem?_eq_some_iff.mp (mem_zipIdx_iff_getElem?.mp listed)
    exact can entry.2 (by simpa [same] using inside)

/-! ## Splitting a line into words -/

def textSettled (line : Located) (words : List String) : Prop :=
  setAnnotationText line.anno (Go.join words) = line.anno

/-- A line with its words and their identifiers, when every check before the first write has
passed. -/
structure LineSplit where
  line : Located
  words : List String
  wordIDs : List String

def lineSplit (ext : Externals) (draft : AnnotationDraft) (lineID : String) (requested : List String) :
    Except String LineSplit := do
  let line ← draft.annotation lineID "line"
  let words ← requestedLineWords line requested
  let owned := (draft.wordsForLine lineID).map Located.index
  if draft.items.length - owned.length + words.length > maxAnnotationsPerPage then
    throw tooManyAnnotations
  preflightWordFanoutBytes draft.rawBytes (encodedSize line) words
  let wordIDs ← (List.range words.length).mapM fun index => do
    let wordID ← structuralWordID ext draft.pageID lineID index
    if collides draft owned wordID then throw (collision wordID)
    return wordID
  return ⟨line, words, wordIDs⟩

theorem splitDraftLineIntoWords_eq (ext : Externals) (draft : AnnotationDraft) (lineID : String)
    (requested : List String) :
    splitDraftLineIntoWords ext draft lineID requested = (do
      let split ← refusing draft.items (lineSplit ext draft lineID requested)
      let written := setAnnotationText split.line.anno (Go.join split.words)
      let items := writeAt draft.items split.line written
      let generated ← refusing items
        (deriveSplitWords ext draft.identity.canvasURI written split.line.box split.words
          split.wordIDs)
      return replaceDraftItems items ((draft.wordsForLine lineID).map Located.index)
        (split.line.index + 1)
        (generated.map Json.obj)) := by
  simp only [splitDraftLineIntoWords, lineSplit, refusing_bind, bind_assoc]
  congr 1
  funext line
  congr 1
  funext words
  split
  · rfl
  · simp only [refusing_bind, refusing_pure, bind_assoc, pure_bind]

variable {draft : AnnotationDraft}

theorem annotation_ok {id granularity : String} {located : Located}
    (found : draft.annotation id granularity = .ok located) :
    draft.items[located.index]? = some (.obj located.anno) ∧
      Assoc.get draft.indexByID (Go.trimSpace id) = some located.index ∧
      hasLowerGranularity located.anno granularity = true ∧
      annotationBox located.anno = .ok located.box := by
  simp only [AnnotationDraft.annotation] at found
  split at found
  · cases found
  · split at found
    · cases found
    · rename_i index isIndex
      split at found
      · rename_i place
        split at found
        · cases found
        · rename_i level
          split at found
          · rename_i box parsed
            obtain rfl := Except.ok.inj found
            exact ⟨place, isIndex, by simpa using level, parsed⟩
          · cases found
      · cases found

theorem lineSplit_line {lineID : String} {requested : List String}
    {split : LineSplit} (passed : lineSplit ext draft lineID requested = .ok split) :
    draft.items[split.line.index]? = some (.obj split.line.anno) ∧
      split.wordIDs.length = split.words.length := by
  simp only [lineSplit, bind_ok_iff, guard_ok_iff, mapM_ok_iff] at passed
  obtain ⟨line, found, words, -, -, -, -, wordIDs, each, isSplit⟩ := passed
  obtain rfl := pure_ok_iff.mp isSplit
  exact ⟨(annotation_ok found).1, by simpa using each.length_eq.symm⟩

/-- The line's words can be derived once its text is written, or its text stays the same. -/
def LineSplit.Guarded (ext : Externals) (canvasURI : String) (split : LineSplit) : Prop :=
  canDeriveWords ext canvasURI (setAnnotationText split.line.anno (Go.join split.words)) split.line.box
      split.words.length ∨
    textSettled split.line split.words

theorem splitLine_guarded_iff (ext : Externals) (draft : AnnotationDraft) (lineID : String)
    (requested : List String) :
    (∀ refusal, splitDraftLineIntoWords ext draft lineID requested = .error refusal →
      refusal.items = draft.items) ↔
      ∀ split, lineSplit ext draft lineID requested = .ok split →
        split.Guarded ext draft.identity.canvasURI := by
  rw [splitDraftLineIntoWords_eq]
  constructor
  · intro unchanged split passed
    obtain ⟨place, same⟩ := lineSplit_line passed
    by_cases can : canDeriveWords ext draft.identity.canvasURI
        (setAnnotationText split.line.anno (Go.join split.words))
        split.line.box split.words.length
    · exact .inl can
    · rw [← deriveSplitWords_isOk_iff same, not_isOk_iff] at can
      obtain ⟨message, failed⟩ := can
      refine .inr ((writeAt_eq_self_iff place).mp (unchanged ⟨message, _⟩ ?_))
      rw [bind_error_iff]
      exact .inr ⟨split, refusing_ok_iff.mpr passed, bind_error_iff.mpr (.inl
        (refusing_error_iff.mpr ⟨message, failed, rfl⟩))⟩
  · intro guarded refusal refused
    simp only [bind_error_iff, refusing_error_iff, refusing_ok_iff] at refused
    rcases refused with ⟨message, -, rfl⟩ | ⟨split, passed,
      ⟨message, failed, rfl⟩ | ⟨generated, -, done⟩⟩
    · rfl
    · obtain ⟨place, same⟩ := lineSplit_line passed
      rcases guarded split passed with can | settled
      · rw [← deriveSplitWords_isOk_iff same, failed] at can
        cases can
      · exact (writeAt_eq_self_iff place).mpr settled
    · cases done

/-! ## Splitting a page into words -/

def SplitPlan.write (plan : SplitPlan) : Located × Object :=
  (plan.line, setAnnotationText plan.line.anno (Go.join plan.words))

def writtenTexts (items : List Json) (plans : List SplitPlan) : List Json :=
  writeAll items (plans.map SplitPlan.write)

theorem writtenTexts_eq_iff {plans : List SplitPlan}
    (plansOf : WritesOf items (plans.map SplitPlan.line)) :
    writtenTexts items plans = items ↔ ∀ plan ∈ plans, textSettled plan.line plan.words := by
  have lines : (plans.map SplitPlan.write).map Prod.fst = plans.map SplitPlan.line := by
    rw [map_map]
    rfl
  rw [writtenTexts, writeAll_eq_iff (lines ▸ plansOf), forall_mem_map]
  rfl

def planIDs (ext : Externals) (draft : AnnotationDraft) (plan : SplitPlan) :
    Except String (List String) :=
  (List.range plan.words.length).mapM (structuralWordID ext draft.pageID (Go.trimSpace plan.line.id))

/-- The words of these lines get distinct identifiers that clash with no other item. -/
def Named (ext : Externals) (draft : AnnotationDraft) (owned : List Nat)
    (plans : List SplitPlan) : Prop :=
  ∃ ids, plans.mapM (planIDs ext draft) = .ok ids ∧ ids.flatten.Nodup ∧
    ∀ id ∈ ids.flatten, collides draft owned id = false

def SplitPlan.derivable (ext : Externals) (draft : AnnotationDraft) (plan : SplitPlan) : Prop :=
  canDeriveWords ext draft.identity.canvasURI
    (setAnnotationText plan.line.anno (Go.join plan.words)) plan.line.box
    plan.words.length

theorem planWordIDs_ok_iff {owned : List Nat} {lineID : String}
    {used : List String} {indices : List Nat} {ids : List String} :
    planWordIDs ext draft owned lineID used indices = .ok ids ↔
      indices.mapM (structuralWordID ext draft.pageID lineID) = .ok ids ∧ ids.Nodup ∧
        ∀ id ∈ ids, id ∉ used ∧ collides draft owned id = false := by
  induction indices generalizing used ids with
  | nil =>
    rw [planWordIDs, mapM_nil, pure_ok_iff, Except.ok.injEq]
    constructor
    · rintro rfl
      simp
    · exact fun all => all.1
  | cons index rest ih =>
    simp only [planWordIDs, mapM_cons, bind_ok_iff, guard_ok_iff, pure_ok_iff, ih, Bool.not_eq_true]
    constructor
    · rintro ⟨id, named, fresh, free, others, ⟨otherNames, distinct, each⟩, rfl⟩
      refine ⟨⟨id, named, others, otherNames, rfl⟩, nodup_cons.mpr ⟨fun again => ?_, distinct⟩, ?_⟩
      · exact (each id again).1 mem_cons_self
      · intro other member
        rcases mem_cons.mp member with rfl | later
        · exact ⟨fresh, free⟩
        · exact ⟨fun before => (each other later).1 (mem_cons_of_mem _ before), (each other later).2⟩
    · rintro ⟨⟨id, named, others, otherNames, rfl⟩, distinct, each⟩
      obtain ⟨unrepeated, distinctOthers⟩ := nodup_cons.mp distinct
      obtain ⟨fresh, free⟩ := each id mem_cons_self
      refine ⟨id, named, fresh, free, others,
        ⟨otherNames, distinctOthers, fun other later => ⟨fun before => ?_, (each other
        (mem_cons_of_mem _ later)).2⟩⟩, rfl⟩
      rcases mem_cons.mp before with rfl | before
      · exact unrepeated later
      · exact (each other (mem_cons_of_mem _ later)).1 before

/-- The state after some lines are split: what was written, and which identifiers are taken. -/
structure SplitReached (ext : Externals) (draft : AnnotationDraft) (owned : List Nat)
    (plans : List SplitPlan) (state : PageSplit) : Prop where
  items : state.items = writtenTexts draft.items plans
  named : ∃ ids, plans.mapM (planIDs ext draft) = .ok ids ∧ ids.flatten.Nodup ∧
    (∀ id ∈ ids.flatten, collides draft owned id = false) ∧ ∀ id, id ∈ state.generatedIDs ↔
    id ∈ ids.flatten
  derivable : ∀ plan ∈ plans, plan.derivable ext draft

section
variable {ext : Externals} {draft : AnnotationDraft} {owned : List Nat} {before : List SplitPlan}
  {plan : SplitPlan} {state : PageSplit}

theorem SplitReached.named_iff (reached : SplitReached ext draft owned before state) :
    (planWordIDs ext draft owned (Go.trimSpace plan.line.id) state.generatedIDs
      (List.range plan.words.length)).isOk =
      true ↔ Named ext draft owned (before ++ [plan]) := by
  obtain ⟨ids, names, distinct, free, used⟩ := reached.named
  simp only [isOk_iff, planWordIDs_ok_iff, Named, mapM_concat_ok_iff, used]
  constructor
  · rintro ⟨last, lastNames, lastDistinct, each⟩
    refine ⟨_, ⟨ids, last, names, lastNames, rfl⟩, ?_, ?_⟩
    · rw [flatten_append, flatten_singleton, nodup_append]
      exact ⟨distinct, lastDistinct, fun id old _ new same => (each _ new).1 (same ▸ old)⟩
    · intro id member
      rw [flatten_append, flatten_singleton, mem_append] at member
      exact member.elim (free id) fun new => (each id new).2
  · rintro ⟨_, ⟨made, last, made_, lastNames, rfl⟩, allDistinct, allFree⟩
    obtain rfl := Except.ok.inj (names.symm.trans made_)
    rw [flatten_append, flatten_singleton] at allDistinct allFree
    rw [nodup_append] at allDistinct
    exact ⟨last, lastNames, allDistinct.2.1, fun id new =>
      ⟨fun old => allDistinct.2.2 id old id new rfl, allFree id (mem_append_right _ new)⟩⟩

/-- Splitting one more line: it is refused before or after its text is written, or done. -/
theorem SplitReached.step (reached : SplitReached ext draft owned before state) :
    (∃ message, splitPlan ext draft owned state plan =
      .error ⟨message, writtenTexts draft.items before⟩ ∧
        ¬ Named ext draft owned (before ++ [plan])) ∨
      (∃ message, splitPlan ext draft owned state plan =
        .error ⟨message, writtenTexts draft.items (before ++ [plan])⟩ ∧
        Named ext draft owned (before ++ [plan]) ∧ ¬ plan.derivable ext draft) ∨
      ∃ next, splitPlan ext draft owned state plan = .ok next ∧
        SplitReached ext draft owned (before ++ [plan]) next := by
  have written :
      writeAt state.items plan.line (setAnnotationText plan.line.anno (Go.join plan.words)) =
      writtenTexts draft.items (before ++ [plan]) := by
    rw [reached.items, writtenTexts, writtenTexts, map_append, writeAll, writeAll, foldl_append]
    rfl
  -- Names are checked before the text of the line is written, words are derived after it.
  cases names : planWordIDs ext draft owned (Go.trimSpace plan.line.id) state.generatedIDs
      (List.range plan.words.length) with
  | error message =>
    refine .inl ⟨message, ?_, ?_⟩
    · simp [splitPlan, names, refusing, bind, Except.bind, reached.items]
    · rw [← reached.named_iff, names]
      simp [Except.isOk, Except.toBool]
  | ok wordIDs =>
    have isNamed : Named ext draft owned (before ++ [plan]) := by
      rw [← reached.named_iff, names]
      rfl
    obtain ⟨lastNames, lastDistinct, each⟩ := planWordIDs_ok_iff.mp names
    have same : wordIDs.length = plan.words.length := by
      simpa using (mapM_ok_iff.mp lastNames).length_eq.symm
    cases derived : deriveSplitWords ext draft.identity.canvasURI
        (setAnnotationText plan.line.anno (Go.join plan.words))
        plan.line.box plan.words wordIDs with
    | error message =>
      refine .inr (.inl ⟨message, ?_, isNamed, ?_⟩)
      · simp only [splitPlan, names, refusing, bind, Except.bind, derived, written]
      · rw [SplitPlan.derivable, ← deriveSplitWords_isOk_iff same, derived]
        simp [Except.isOk, Except.toBool]
    | ok generated =>
      refine .inr
        (.inr ⟨_,
          by simp only [splitPlan, names, refusing, bind, Except.bind, derived]; rfl, written, ?_, ?_⟩)
      · obtain ⟨ids, idNames, -, -, used⟩ := reached.named
        obtain ⟨all, allNames, allDistinct, allFree⟩ := isNamed
        obtain ⟨made, last, made_, last_, rfl⟩ := mapM_concat_ok_iff.mp allNames
        obtain rfl := Except.ok.inj (idNames.symm.trans made_)
        obtain rfl := Except.ok.inj (lastNames.symm.trans last_)
        refine ⟨_, allNames, allDistinct, allFree, fun id => ?_⟩
        simp only [mem_append, mem_reverse, used, flatten_append, flatten_singleton]
        exact or_comm
      · intro other member
        rcases mem_append.mp member with old | new
        · exact reached.derivable other old
        · rw [mem_singleton.mp new, SplitPlan.derivable, ← deriveSplitWords_isOk_iff same, derived]
          rfl

end

section
variable (ext : Externals) (draft : AnnotationDraft) (owned : List Nat)

theorem splitReached_start : SplitReached ext draft owned [] ⟨draft.items, [], []⟩ :=
  ⟨rfl, ⟨[], rfl, by simp, by simp, by simp⟩, by simp⟩

theorem splitReached_of_ok {before : List SplitPlan} {state : PageSplit}
    (run : before.foldlM (splitPlan ext draft owned) ⟨draft.items, [], []⟩ = .ok state) :
    SplitReached ext draft owned before state := by
  refine foldlM_invariant (fun done state => SplitReached ext draft owned done state) run
    (splitReached_start ext draft owned) ?_
  intro done plan _ state next _ reached stepped
  rcases reached.step with ⟨_, failed, -⟩ | ⟨_, failed, -⟩ | ⟨next', done', reached'⟩
  · rw [failed] at stepped
    cases stepped
  · rw [failed] at stepped
    cases stepped
  · rw [done'] at stepped
    obtain rfl := Except.ok.inj stepped
    exact reached'

theorem exists_splitReached {before : List SplitPlan} (named : Named ext draft owned before)
    (derivable : ∀ plan ∈ before, plan.derivable ext draft) :
    ∃ state, before.foldlM (splitPlan ext draft owned) ⟨draft.items, [], []⟩ = .ok state := by
  induction before using List.reverseRecOn with
  | nil => exact ⟨_, rfl⟩
  | append_singleton before plan ih =>
    have namedBefore : Named ext draft owned before := by
      obtain ⟨all, names, distinct, free⟩ := named
      obtain ⟨made, last, made_, -, rfl⟩ := mapM_concat_ok_iff.mp names
      rw [flatten_append] at distinct free
      exact ⟨made, made_, (nodup_append.mp distinct).1, fun id member =>
        free id (mem_append_left _ member)⟩
    obtain ⟨state, run⟩ := ih namedBefore fun other member =>
      derivable other (mem_append_left _ member)
    rcases (splitReached_of_ok ext draft owned run).step with
        ⟨_, -, unnamed⟩ | ⟨_, -, -, stuck⟩ | ⟨next, stepped, -⟩
    · exact absurd named unnamed
    · exact absurd (derivable plan (by simp)) stuck
    · refine ⟨next, ?_⟩
      rw [foldlM_append, bind_ok_iff]
      exact ⟨state, run, by simpa [foldlM_cons, bind_ok_iff, pure_ok_iff] using stepped⟩

end

def ownedWordIndices (draft : AnnotationDraft) : List Nat :=
  ((assignSpatialWordsToLines draft.items none).flatMap fun line => line.2.map (·.index)).dedup

def pageSplitPlans (draft : AnnotationDraft) : Except String (List SplitPlan) := do
  let plans ← splitPlans (maxAnnotationPageBytes - draft.rawBytes) draft.items.zipIdx
  if plans.isEmpty then throw "annotation page has no line annotations"
  if draft.items.length - (ownedWordIndices draft).length +
    (plans.map (·.words.length)).sum > maxAnnotationsPerPage then
    throw tooManyAnnotations
  return plans

theorem splitDraftPageIntoWords_eq (ext : Externals) (draft : AnnotationDraft) :
    splitDraftPageIntoWords ext draft = (do
      let plans ← refusing draft.items (pageSplitPlans draft)
      let split ← plans.foldlM (splitPlan ext draft (ownedWordIndices draft)) ⟨draft.items, [], []⟩
      return split.items.zipIdx.flatMap fun entry =>
        if entry.2 ∈ ownedWordIndices draft then []
        else entry.1 :: ((Assoc.get split.generatedByLineIndex entry.2).getD []).map Json.obj) := by
  have owned : ((assignSpatialWordsToLines draft.items none).flatMap fun line =>
    line.2.map (·.index)).dedup =
      ownedWordIndices draft := rfl
  simp only [splitDraftPageIntoWords, owned, pageSplitPlans, refusing_bind, bind_assoc]
  congr 1
  funext plans
  split
  · rfl
  · split
    · rfl
    · simp only [refusing_pure, pure_bind]

theorem splitPlans_places {remaining : Nat} {entries : List (Json × Nat)} {plans : List SplitPlan}
    (found : splitPlans remaining entries = .ok plans) :
    (∀ plan ∈ plans, (Json.obj plan.line.anno, plan.line.index) ∈ entries) ∧
      (plans.map (·.line.index)).Sublist (entries.map Prod.snd) := by
  induction entries generalizing remaining plans with
  | nil =>
    obtain rfl := Except.ok.inj found
    simp
  | cons entry rest ih =>
    obtain ⟨item, index⟩ := entry
    rw [splitPlans] at found
    split at found
    · obtain ⟨members, order⟩ := ih found
      exact ⟨fun plan member => mem_cons_of_mem _ (members plan member), order.cons _⟩
    · rename_i isLine
      obtain ⟨anno, rfl⟩ : ∃ anno, item = .obj anno := by
        cases item with
        | obj anno => exact ⟨anno, rfl⟩
        | _ => simp [isLineItem] at isLine
      simp only [bind_ok_iff, guard_ok_iff, pure_ok_iff] at found
      obtain ⟨-, box, -, -, left, -, others, foundRest, rfl⟩ := found
      obtain ⟨members, order⟩ := ih foundRest
      refine ⟨fun plan member => ?_, order.cons_cons _⟩
      rcases mem_cons.mp member with rfl | later
      · exact mem_cons_self
      · exact mem_cons_of_mem _ (members plan later)

section
variable {plans : List SplitPlan} (passed : pageSplitPlans draft = .ok plans)
include passed

theorem pageSplitPlans_located :
    splitPlans (maxAnnotationPageBytes - draft.rawBytes) draft.items.zipIdx = .ok plans := by
  simp only [pageSplitPlans, bind_ok_iff, guard_ok_iff, pure_ok_iff] at passed
  obtain ⟨_, located, -, -, rfl⟩ := passed
  exact located

theorem pageSplitPlans_plansOf : WritesOf draft.items (plans.map SplitPlan.line) := by
  obtain ⟨members, order⟩ := splitPlans_places (pageSplitPlans_located passed)
  refine ⟨forall_mem_map.mpr fun plan member => mem_zipIdx_iff_getElem?.mp (members plan member), ?_⟩
  rw [map_map]
  refine List.Nodup.sublist order ?_
  rw [zipIdx_map_snd]
  exact nodup_range'

/-- Up to the first line whose words cannot be named or derived, every text that the split writes by
then is there already. -/
def PageSplitGuarded (ext : Externals) (draft : AnnotationDraft) (plans : List SplitPlan) : Prop :=
  ∀ before plan after, plans = before ++ plan :: after →
    Named ext draft (ownedWordIndices draft) before →
    (∀ earlier ∈ before, earlier.derivable ext draft) →
    (¬ Named ext draft (ownedWordIndices draft) (before ++ [plan]) →
      ∀ earlier ∈ before, textSettled earlier.line earlier.words) ∧
    (Named ext draft (ownedWordIndices draft) (before ++ [plan]) → ¬ plan.derivable ext draft →
      ∀ earlier ∈ before ++ [plan], textSettled earlier.line earlier.words)

theorem pageSplitPlans_writesOf {before after : List SplitPlan} {plan : SplitPlan}
    (split : plans = before ++ plan :: after) :
    WritesOf draft.items (before.map SplitPlan.line) ∧
      WritesOf draft.items ((before ++ [plan]).map SplitPlan.line) := by
  have all := pageSplitPlans_plansOf passed
  rw [split] at all
  have longer : (before ++ [plan]).Sublist (before ++ plan :: after) :=
    (singleton_sublist.mpr mem_cons_self).append_left before
  exact ⟨all.sublist ((sublist_append_left before _).map _), all.sublist (longer.map _)⟩

end

theorem splitPage_guarded_iff (ext : Externals) (draft : AnnotationDraft) :
    (∀ refusal, splitDraftPageIntoWords ext draft = .error refusal → refusal.items = draft.items) ↔
      ∀ plans, pageSplitPlans draft = .ok plans → PageSplitGuarded ext draft plans := by
  rw [splitDraftPageIntoWords_eq]
  constructor
  · intro unchanged plans passed before plan after split named derivable
    obtain ⟨throughBefore, throughPlan⟩ := pageSplitPlans_writesOf passed split
    obtain ⟨state, run⟩ := exists_splitReached ext draft (ownedWordIndices draft) named derivable
    have refused : ∀ refusal, splitPlan ext draft (ownedWordIndices draft) state
        plan = .error refusal →
        refusal.items = draft.items := by
      intro refusal failed
      refine unchanged refusal (bind_error_iff.mpr
        (.inr ⟨plans, refusing_ok_iff.mpr passed, bind_error_iff.mpr (.inl ?_)⟩))
      exact foldlM_error_iff.mpr ⟨before, plan, after, state, split, run, failed⟩
    rcases (splitReached_of_ok ext draft _ run).step with
        ⟨message, failed, unnamed⟩ | ⟨message, failed, isNamed, stuck⟩ |
        ⟨next, stepped, reached⟩
    · exact ⟨fun _ => (writtenTexts_eq_iff throughBefore).mp (refused _ failed), fun isNamed =>
        absurd isNamed unnamed⟩
    · exact ⟨fun unnamed => absurd isNamed unnamed, fun _ _ =>
        (writtenTexts_eq_iff throughPlan).mp (refused _ failed)⟩
    · obtain ⟨ids, names, distinct, free, -⟩ := reached.named
      exact ⟨fun unnamed => absurd ⟨ids, names, distinct, free⟩ unnamed, fun _ stuck =>
        absurd (reached.derivable plan (by simp)) stuck⟩
  · intro guarded refusal refused
    simp only [bind_error_iff, refusing_error_iff, refusing_ok_iff] at refused
    rcases refused with ⟨message, -, rfl⟩ | ⟨plans, passed, stopped | ⟨_, -, done⟩⟩
    · rfl
    · obtain ⟨before, plan, after, state, split, run, failed⟩ := foldlM_error_iff.mp stopped
      obtain ⟨throughBefore, throughPlan⟩ := pageSplitPlans_writesOf passed split
      have reached := splitReached_of_ok ext draft _ run
      obtain ⟨ids, names, distinct, free, -⟩ := reached.named
      obtain ⟨early, late⟩ :=
        guarded plans passed before plan after split ⟨ids, names, distinct, free⟩ reached.derivable
      rcases reached.step with ⟨message, refusedEarly, unnamed⟩ | ⟨message, refusedLate, isNamed,
        stuck⟩ | ⟨next, stepped, -⟩
      · obtain rfl := Except.error.inj (refusedEarly.symm.trans failed)
        exact (writtenTexts_eq_iff throughBefore).mpr (early unnamed)
      · obtain rfl := Except.error.inj (refusedLate.symm.trans failed)
        exact (writtenTexts_eq_iff throughPlan).mpr (late isNamed stuck)
      · rw [stepped] at failed
        cases failed
    · cases done

/-! ## Splitting a line in two -/

def canMove (ext : Externals) (canvasURI : String) (entry : Located × Box) : Bool :=
  (targetWithFragment ext (Json.field entry.1.anno "target") canvasURI entry.2).isOk

section
variable {lineID : String} {requestedSplit : Int} {halved : HalvedLine}
  (passed : halveDraftLine ext draft lineID requestedSplit = .ok halved)
include passed

end

def StructuralEdit.Guarded (ext : Externals) (draft : AnnotationDraft) : StructuralEdit → Prop
  | splitLineIntoWords lineID words =>
      ∀ split, lineSplit ext draft lineID words = .ok split →
        split.Guarded ext draft.identity.canvasURI
  | splitPageIntoWords => ∀ plans, pageSplitPlans draft = .ok plans → PageSplitGuarded ext draft plans
  | splitLineIntoTwo lineID splitAtWord =>
      ∀ halved, halveDraftLine ext draft lineID splitAtWord = .ok halved →
        ∀ entry ∈ halved.words, canMove ext draft.identity.canvasURI entry = true
  | joinLines _ => True
  | joinWordsIntoLine _ => True

end Scribe.Server
