import Scribe.Server.WordSplits

/-! The two splits of a draft into words.

A split of one line and a split of the page differ in the lines and words they plan
and in how they check the new names. When they go through, both are the edit of the
lines they planned.
-/

set_option autoImplicit false

namespace Scribe.Server

open Attempt Iiif List

/-! ## Names on a page -/

/-- What a page keeps when the boxes of its words cannot be read. -/
structure PlainItem (item : Json) : Prop where
  isObject : item = .obj item.toObject
  trimmed : Go.trimSpace (itemID item) = itemID item
  level : Go.trimSpace (annStringValue item.toObject "textGranularity") ∈ "" :: knownLevels

structure PlainPage (items : List Json) : Prop where
  plain : ∀ item ∈ items, PlainItem item
  distinct : (items.map itemID).Nodup

theorem CanonicalPage.plainPage {canvasURI : String} {items : List Json}
    (page : CanonicalPage canvasURI items) : PlainPage items where
  plain item member :=
    let canonical := page.canonical item member
    ⟨canonical.isObject, canonical.identified.trimSpace, canonical.level⟩
  distinct := page.distinct

variable {lineID : String}

section
variable {draft : AnnotationDraft} (plain : PlainPage draft.items)
include plain

theorem PlainPage.indexByID_eq : draft.indexByID = draft.items.zipIdx.map fun entry =>
      (itemID entry.1, entry.2) := by
  have sameNames : (draft.items.zipIdx.map fun entry => (Go.trimSpace (itemID entry.1), entry.2)) =
      draft.items.zipIdx.map fun entry => (itemID entry.1, entry.2) := by
    apply map_congr_left
    rintro ⟨item, index⟩ member
    rw [(plain.plain item (mem_of_getElem? (mem_zipIdx_iff_getElem?.mp member))).trimmed]
  rw [AnnotationDraft.indexByID, sameNames]
  apply Assoc.ofEntries_of_nodup
  have distinct := plain.distinct
  rw [← zipIdx_map_fst 0 draft.items, map_map] at distinct
  rw [Assoc.keys, map_map]
  exact distinct

theorem PlainPage.get_indexByID {index : Nat} {item : Json}
    (listed : draft.items[index]? = some item) :
    Assoc.get draft.indexByID (itemID item) = some index := by
  apply Assoc.get_of_mem (Assoc.nodup_keys_ofEntries _)
  rw [← AnnotationDraft.indexByID, plain.indexByID_eq]
  exact mem_map.mpr ⟨(item, index), mem_zipIdx_iff_getElem?.mpr listed, rfl⟩

theorem PlainPage.index_eq {i j : Nat} {a b : Json} (atI : draft.items[i]? = some a)
    (atJ : draft.items[j]? = some b) (same : itemID a = itemID b) : i = j := by
  have first := plain.get_indexByID atI
  rw [same, plain.get_indexByID atJ] at first
  exact (Option.some.inj first).symm

theorem PlainPage.line_item {line : Located} (isLine : line ∈ linesOf draft.items) :
    draft.items[line.index]? = some (.obj line.anno) := by
  obtain ⟨⟨item, listed, same⟩, -⟩ := mem_locatedOf.mp isLine
  rw [listed, (plain.plain item (mem_of_getElem? listed)).isObject, same]

theorem PlainPage.no_word_at_line {line : Located} (isLine : line ∈ linesOf draft.items)
    {word : Object} {box : Box} : ¬ SpatialAt draft.items "word" line.index word box := by
  intro place
  have same := Json.obj.inj (Option.some.inj ((plain.line_item isLine).symm.trans place.item))
  have level := (plain.plain _ (mem_of_getElem? place.item)).level
  have isWord := place.isLevel
  rw [Json.toObject_obj] at level
  rw [granularity_tests level (.inr rfl),
    line_not_word level (same ▸ (mem_locatedOf.mp isLine).2.1)] at isWord
  cases isWord

theorem PlainPage.annotation_line {line : Located}
    (found : draft.annotation lineID "line" = .ok line) :
    line ∈ linesOf draft.items ∧ line.id = Go.trimSpace lineID := by
  obtain ⟨place, isIndex, isLine, parsed⟩ := annotation_ok found
  have level := (plain.plain _ (mem_of_getElem? place)).level
  rw [Json.toObject_obj] at level
  rw [granularity_tests level (.inl rfl)] at isLine
  refine ⟨mem_locatedOf.mpr ⟨⟨_, place, rfl⟩, isLine, parsed⟩, ?_⟩
  have entry := Assoc.mem_of_get isIndex
  rw [plain.indexByID_eq] at entry
  obtain ⟨⟨other, position⟩, listed, same⟩ := mem_map.mp entry
  obtain ⟨isID, rfl⟩ := Prod.mk.inj same
  cases place.symm.trans (mem_zipIdx_iff_getElem?.mp listed)
  exact isID

end

/-! ## Derived names -/

theorem head_of_rdropWhile {chars : List Char} {drops : Char → Bool} {c : Char}
    (first : (chars.rdropWhile drops).head? = some c) : chars.head? = some c := by
  obtain ⟨rest, split⟩ := rdropWhile_prefix drops chars
  rw [← split]
  cases kept : chars.rdropWhile drops with
  | nil => simp [kept] at first
  | cons d others => simpa [kept] using first

theorem head_before_slash {text rest : String} {c : Char} (slash : rest.toList.head? = some '/')
    (first : (text ++ rest).toList.head? = some c) : text.toList.head? = some c ∨ c = '/' := by
  rw [String.toList_append, head?_append, slash] at first
  cases start : text.toList.head? with
  | some d => exact .inl (by simpa [start] using first)
  | none => exact .inr (by simpa [start] using first.symm)

theorem head_pageID {ext : Externals} {publicBaseURL pageID : String} {itemImageID : Nat}
    (named : annotationPageID ext publicBaseURL itemImageID = .ok pageID) {c : Char}
    (first : pageID.toList.head? = some c) : Text.unicodeSpace c = false := by
  simp only [annotationPageID, validHTTPBase, bind_ok_iff, guard_ok_iff, pure_ok_iff] at named
  obtain ⟨_, ⟨-, -, -, rfl⟩, -, rfl⟩ := named
  rw [String.append_assoc, String.append_assoc] at first
  rcases head_before_slash (by simp) first with isFirst | rfl
  · rw [Go.trimRight, String.toList_ofList] at isFirst
    have atTrimmed := head_of_rdropWhile isFirst
    rw [Go.trimSpace, Text.trim, String.toList_ofList] at atTrimmed
    exact Text.head?_trimChars _ c atTrimmed
  · decide

theorem structuralWordID_ok {ext : Externals} {pageID id : String} {i : Nat}
    (named : structuralWordID ext pageID lineID i = .ok id) :
    ∃ seed, id = Go.trimRight pageID '/' ++ "/items/" ++ ext.digest seed := by
  simp only [structuralWordID, annotationID, bind_ok_iff, guard_ok_iff, pure_ok_iff] at named
  obtain ⟨-, -, -, rfl⟩ := named
  exact ⟨_, rfl⟩

variable {draft : AnnotationDraft}

/-- Digests are hexadecimal texts, so a derived name has no white space around it. -/
theorem structuralWordID_trimmed {ext : Externals} (canonical : CanonicalDraft ext draft)
    (hexadecimal : ∀ seed, Text.IsField Text.unicodeSpace (ext.digest seed)) {id : String} {i : Nat}
    (named : structuralWordID ext draft.pageID lineID i = .ok id) : Go.trimSpace id = id := by
  obtain ⟨seed, rfl⟩ := structuralWordID_ok named
  have filled : (ext.digest seed).toList ≠ [] := by
    simpa using (hexadecimal seed).1
  have ends : Text.trimChars Text.unicodeSpace (Go.trimRight draft.pageID '/' ++ "/items/" ++
      ext.digest seed).toList =
      (Go.trimRight draft.pageID '/' ++ "/items/" ++ ext.digest seed).toList := by
    apply Text.trimChars_of_ends
    · intro c first
      rw [String.append_assoc] at first
      rcases head_before_slash (by simp) first with isFirst | rfl
      · rw [Go.trimRight, String.toList_ofList] at isFirst
        exact head_pageID canonical.pageID (head_of_rdropWhile isFirst)
      · decide
    · intro c last
      rw [String.toList_append, getLast?_append_of_ne_nil _ filled] at last
      exact (hexadecimal seed).2 c (mem_of_getLast? last)
  rw [Go.trimSpace, Text.trim, ends, String.ofList_toList]

/-! ## The two calls -/

inductive SplitCall where
  | line (lineID : String) (requested : List String)
  | page

namespace SplitCall

def run (ext : Externals) (draft : AnnotationDraft) : SplitCall → Except Refusal (List Json)
  | .line lineID requested => splitDraftLineIntoWords ext draft lineID requested
  | .page => splitDraftPageIntoWords ext draft

def selects (line : Located) : SplitCall → Bool
  | .line lineID _ => line.id = Go.trimSpace lineID
  | .page => true

def words (line : Located) : SplitCall → List String
  | .line _ requested => if requested = [] then Go.fields line.text else requested.map Go.trimSpace
  | .page => Go.fields line.text

def seed (call : SplitCall) (plan : SplitPlan) : String :=
  match call with
  | .line lineID _ => lineID
  | .page => Go.trimSpace plan.line.id

def plans (call : SplitCall) (items : List Json) : List SplitPlan :=
  ((linesOf items).filter (selects · call)).map fun line => ⟨line, call.words line⟩

end SplitCall

theorem deriveSplitWords_ids {ext : Externals} {canvasURI : String} {line : Object} {box : Box}
    {words wordIDs : List String} {generated : List Object} (same : wordIDs.length = words.length)
    (derived : deriveSplitWords ext canvasURI line box words wordIDs = .ok generated) :
    generated.map wordID = wordIDs := by
  have pairs := mapM_ok_iff.mp derived
  have names : generated.map wordID = (words.zip wordIDs).zipIdx.map fun entry => entry.1.2 := by
    clear derived
    generalize (words.zip wordIDs).zipIdx = entries at pairs
    induction pairs with
    | nil => rfl
    | cons made _ tail =>
      have isID : wordID _ = _ := deriveTextAnnotation_id made
      rw [map_cons, map_cons, isID, tail]
  have zipped : (words.zip wordIDs).zipIdx.map (fun entry => entry.1.2) =
      (words.zip wordIDs).map Prod.snd := by
    have composed : (words.zip wordIDs).zipIdx.map (fun entry => entry.1.2) =
        ((words.zip wordIDs).zipIdx.map Prod.fst).map Prod.snd := by
      rw [map_map]
      rfl
    rw [composed, zipIdx_map_fst]
  rw [names, zipped, map_snd_zip (Nat.le_of_eq same)]

theorem requestedLineWords_ok {line : Located} {requested words : List String}
    (accepted : requestedLineWords line requested = .ok words) :
    words = (if requested = [] then Go.fields line.text else requested.map Go.trimSpace) ∧ words ≠ [] ∧
      (∀ word ∈ words, word ≠ "" ∧ Go.trimSpace word = word) ∧
      words.length ≤ max 1 (line.box.x2 - line.box.x1) := by
  simp only [requestedLineWords, bind_ok_iff, guard_ok_iff, pure_ok_iff, map_eq_nil_iff] at accepted
  obtain ⟨noneEmpty, filled, -, -, -, wide, rfl⟩ := accepted
  refine ⟨rfl, filled, ?_, Nat.le_of_not_lt wide⟩
  intro word member
  split at member
  · have isField := Go.fields_isField _ _ member
    exact ⟨isField.1, Go.trimSpace_of_isField isField⟩
  · refine ⟨fun empty => noneEmpty (empty ▸ member), ?_⟩
    obtain ⟨raw, -, rfl⟩ := mem_map.mp member
    exact Go.trimSpace_trimSpace raw

theorem checkedNames_ok {ext : Externals} {owned : List Nat} {indices : List Nat}
    {wordIDs : List String} (checked : (indices.mapM fun index => do
      let wordID ← structuralWordID ext draft.pageID lineID index
      if collides draft owned wordID then throw (collision wordID)
      return wordID) = .ok wordIDs) :
    indices.mapM (structuralWordID ext draft.pageID lineID) = .ok wordIDs ∧
      ∀ id ∈ wordIDs, collides draft owned id = false := by
  rw [mapM_ok_iff] at checked ⊢
  have each : ∀ index id, (do
      let wordID ← structuralWordID ext draft.pageID lineID index
      if collides draft owned wordID then throw (collision wordID)
      return wordID) = Except.ok id →
      structuralWordID ext draft.pageID lineID index = .ok id ∧ collides draft owned id = false := by
    intro index id passed
    simp only [bind_ok_iff, guard_ok_iff, pure_ok_iff] at passed
    obtain ⟨_, named, free, rfl⟩ := passed
    exact ⟨named, by simpa using free⟩
  refine ⟨checked.imp fun index id passed => (each index id passed).1, ?_⟩
  intro id member
  obtain ⟨i, inside, rfl⟩ := getElem_of_mem member
  exact (each _ _ (checked.get (checked.length_eq ▸ inside) inside)).2

theorem replaceDraftItems_eq {items : List Json} {remove : List Nat} {index : Nat}
    (inside : index < items.length) (isKept : index ∉ remove) (replacements : List Json) :
    replaceDraftItems items remove (index + 1) replacements =
      items.zipIdx.flatMap fun entry => if entry.2 ∈ remove then []
        else entry.1 :: if entry.2 = index then replacements else [] := by
  -- Away from the line, items are kept or dropped one by one.
  have keeps : ∀ entries : List (Json × Nat), (∀ entry ∈ entries, entry.2 ≠ index) →
      (entries.filter (·.2 ∉ remove)).map (·.1) = entries.flatMap fun entry =>
        if entry.2 ∈ remove then []
        else entry.1 :: if entry.2 = index then replacements else [] := by
    intro entries apart
    induction entries with
    | nil => rfl
    | cons entry rest ih =>
      have here := apart entry mem_cons_self
      have later := ih fun other member => apart other (mem_cons_of_mem _ member)
      by_cases isRemoved : entry.2 ∈ remove
      · simpa [isRemoved] using later
      · simpa [isRemoved, here] using later
  have inEntries : index < items.zipIdx.length := by simpa using inside
  have here : items.zipIdx.get ⟨index, inEntries⟩ = (items.get ⟨index, inside⟩, index) := by simp
  have front : items.zipIdx.take (index + 1) = items.zipIdx.take index ++
      [(items.get ⟨index, inside⟩, index)] := by
    rw [← here]
    exact take_succ_eq_append_getElem inEntries
  have earlier : ∀ entry ∈ items.zipIdx.take index, entry.2 ≠ index := by
    intro entry member
    obtain ⟨i, bound, rfl⟩ := mem_take_iff_getElem.mp member
    simp only [getElem_zipIdx]
    omega
  have later : ∀ entry ∈ items.zipIdx.drop (index + 1), entry.2 ≠ index := by
    intro entry member
    obtain ⟨i, bound, rfl⟩ := mem_drop_iff_getElem.mp member
    simp only [getElem_zipIdx]
    omega
  have whole : items.zipIdx = items.zipIdx.take index ++ [(items.get ⟨index, inside⟩, index)] ++
      items.zipIdx.drop (index + 1) := by
    rw [← front, take_append_drop]
  rw [replaceDraftItems]
  simp only
  rw [front, filter_append, map_append, keeps _ earlier, keeps _ later]
  conv_rhs => rw [whole, flatMap_append, flatMap_append]
  simp [isKept]

section
variable {draft : AnnotationDraft} {owned : List Nat} {splits : List WordSplit}
  (writesOf : WritesOf draft.items (splits.map (·.plan.line)))
include writesOf

theorem getElem?_writtenTexts (index : Nat) :
    (writtenTexts draft.items (splits.map WordSplit.plan))[index]? =
      draft.items[index]?.map fun item => (splitEdit owned splits).rewrite (item, index) := by
  have lines : ((splits.map WordSplit.plan).map SplitPlan.write).map Prod.fst =
      splits.map (·.plan.line) := by
    rw [map_map, map_map]
    rfl
  cases found : splitAt splits index with
  | none =>
    rw [writtenTexts, getElem?_writeAll_of_ne]
    · simp [splitEdit, found]
    · rw [lines, map_map]
      intro member
      obtain ⟨split, inSplits, isHere⟩ := mem_map.mp member
      exact find?_eq_none.mp found split inSplits (decide_eq_true isHere)
  | some split =>
    obtain ⟨inSplits, rfl⟩ := splitAt_some found
    have written : (writtenTexts draft.items (splits.map WordSplit.plan))[split.plan.line.index]? =
        some (.obj split.plan.written) :=
      getElem?_writeAll_of_mem (lines ▸ writesOf)
        (mem_map_of_mem (f := SplitPlan.write) (mem_map_of_mem (f := WordSplit.plan) inSplits))
    rw [written, writesOf.places split.plan.line (mem_map.mpr ⟨split, inSplits, rfl⟩)]
    simp [splitEdit, found]

/-- Writing the texts first, then dropping and adding. -/
theorem splitResult_eq :
    splitResult draft owned splits =
      (writtenTexts draft.items (splits.map WordSplit.plan)).zipIdx.flatMap fun entry =>
        if entry.2 ∈ owned then []
        else entry.1 :: ((splitAt splits entry.2).map fun split =>
          split.generated.map Json.obj).getD [] :=
  (splitEdit owned splits).apply_of_rewritten (getElem?_writtenTexts writesOf)

end

theorem filter_id_eq {lines : List Located} (distinct : (lines.map Located.id).Nodup) {line : Located}
    (member : line ∈ lines) : lines.filter (·.id = line.id) = [line] := by
  induction lines with
  | nil => cases member
  | cons first rest ih =>
    obtain ⟨apart, restDistinct⟩ := nodup_cons.mp distinct
    rcases mem_cons.mp member with rfl | later
    · have none : rest.filter (·.id = line.id) = [] := by
        rw [filter_eq_nil_iff]
        intro other inRest
        simpa using fun same : other.id = line.id => apart (mem_map.mpr ⟨other, inRest, same⟩)
      simp [none]
    · have notFirst : first.id ≠ line.id := fun same => apart (mem_map.mpr ⟨line, later, same.symm⟩)
      simpa [notFirst] using ih restDistinct later

section
variable {ext : Externals} {draft : AnnotationDraft} (plain : PlainPage draft.items)
include plain

omit plain in
theorem lineSplit_ok {requested : List String} {checked : LineSplit}
    (passed : lineSplit ext draft lineID requested = .ok checked) :
    draft.annotation lineID "line" = .ok checked.line ∧
      requestedLineWords checked.line requested = .ok checked.words ∧
      (List.range checked.words.length).mapM (structuralWordID ext draft.pageID lineID) =
        .ok checked.wordIDs ∧
      ∀ id ∈ checked.wordIDs, collides draft ((draft.wordsForLine lineID).map Located.index)
        id = false := by
  simp only [lineSplit, bind_ok_iff, guard_ok_iff] at passed
  obtain ⟨line, found, words, accepted, -, -, -, wordIDs, named, isChecked⟩ := passed
  obtain rfl := pure_ok_iff.mp isChecked
  exact ⟨found, accepted, checkedNames_ok named⟩

theorem PlainPage.lineSplit_plans {requested : List String} {checked : LineSplit}
    (passed : lineSplit ext draft lineID requested = .ok checked) :
    (SplitCall.line lineID requested).plans draft.items = [⟨checked.line, checked.words⟩] := by
  obtain ⟨found, accepted, -⟩ := lineSplit_ok passed
  obtain ⟨isLine, isID⟩ := plain.annotation_line found
  have isWords := (requestedLineWords_ok accepted).1
  have alone := filter_id_eq ((locatedOf_ids_sublist draft.items "line").nodup plain.distinct) isLine
  have selected : (linesOf draft.items).filter (SplitCall.selects · (.line lineID requested)) =
      [checked.line] := by
    rw [← alone]
    apply filter_congr
    intro other _
    rw [SplitCall.selects, isID]
  rw [SplitCall.plans, selected, map_singleton]
  rw [show (SplitCall.line lineID requested).words checked.line = checked.words from isWords.symm]

theorem splitLine_ok {requested : List String} {result : List Json}
    (ran : splitDraftLineIntoWords ext draft lineID requested = .ok result) :
    ∃ owned splits, SplitDone ext draft (SplitCall.line lineID requested).seed owned splits ∧
      splits.map WordSplit.plan = (SplitCall.line lineID requested).plans draft.items ∧
      result = splitResult draft owned splits := by
  rw [splitDraftLineIntoWords_eq] at ran
  obtain ⟨checked, passed, ran⟩ := bind_ok_iff.mp ran
  rw [refusing_ok_iff] at passed
  obtain ⟨generated, derived, ran⟩ := bind_ok_iff.mp ran
  rw [refusing_ok_iff] at derived
  obtain rfl := pure_ok_iff.mp ran
  have isPlans := plain.lineSplit_plans passed
  obtain ⟨place, sameLength⟩ := lineSplit_line passed
  obtain ⟨found, accepted, names, free⟩ := lineSplit_ok passed
  obtain ⟨line, words, wordIDs⟩ := checked
  simp only at place sameLength derived found accepted names free isPlans ⊢
  obtain ⟨isLine, isID⟩ := plain.annotation_line found
  obtain ⟨-, filled, trimmed, wide⟩ := requestedLineWords_ok accepted
  have valid : line.box.Valid := Box.valid_of_parsed (mem_locatedOf.mp isLine).2.2
  have positive := valid.wide
  have isIDs := deriveSplitWords_ids sameLength derived
  let split : WordSplit := ⟨⟨line, words⟩, generated⟩
  have owned_iff : ∀ index, index ∈ (draft.wordsForLine lineID).map Located.index ↔
      ∃ word ∈ wordsOfLine (assignSpatialWordsToLines draft.items none) line.id,
          word.index = index := by
    intro index
    rw [isID, mem_map]
    rfl
  -- The one split of the call, with what its checks have established.
  have done : SplitDone ext draft (SplitCall.line lineID requested).seed
      ((draft.wordsForLine lineID).map Located.index)
      [split] := by
    refine
      { lines := ?_,
        distinct := by simp, filled := ?_, trimmed := ?_, wide := ?_, dropped := ?_, named := ?_,
        free := ?_, derived := ?_ }
    · simpa [split] using isLine
    · simpa [split] using filled
    · simpa [split] using trimmed
    · simp only [mem_singleton, forall_eq, split]
      omega
    · simpa [split] using owned_iff
    · simp only [mem_singleton, forall_eq, split, isIDs]
      exact names
    · simp only [mem_singleton, forall_eq, split]
      intro word member
      exact free _ (isIDs ▸ mem_map_of_mem member)
    · simp only [mem_singleton, forall_eq, split, isIDs]
      exact derived
  refine ⟨_, [split], done, isPlans.symm, ?_⟩
  · have writesOf : WritesOf draft.items ([split].map (·.plan.line)) :=
      ⟨by simpa [split] using place, by simp⟩
    have isKept : line.index ∉ (draft.wordsForLine lineID).map Located.index := by
      intro isOwned
      obtain ⟨word, listed, isIndex⟩ := (owned_iff _).mp isOwned
      exact plain.no_word_at_line isLine (isIndex ▸ (mem_wordsOfLine.mp listed).1)
    have inside : line.index < (writtenTexts draft.items [split.plan]).length := by
      have bound := (List.getElem?_eq_some_iff.mp place).1
      simpa [writtenTexts, writeAll, SplitPlan.write, writeAt, split] using bound
    have replaced := replaceDraftItems_eq inside isKept (generated.map Json.obj)
    rw [splitResult_eq writesOf]
    refine replaced.trans (flatMap_congr ?_)
    intro entry _
    by_cases isHere : entry.2 = line.index
    · simp [splitAt, split, isHere]
    · simp [splitAt, split, isHere, Ne.symm isHere]

end

/-! ## The split of a page -/

theorem splitPlans_ok {remaining : Nat} {entries : List (Json × Nat)} {plans : List SplitPlan}
    (found : splitPlans remaining entries = .ok plans) :
    plans = (entries.filterMap (locate? "line")).map (fun line => ⟨line, Go.fields line.text⟩) ∧
      ∀ plan ∈ plans, plan.words ≠ [] ∧
        plan.words.length ≤ max 1 (plan.line.box.x2 - plan.line.box.x1) := by
  induction entries generalizing remaining plans with
  | nil =>
    obtain rfl := Except.ok.inj found
    simp
  | cons entry rest ih =>
    obtain ⟨item, index⟩ := entry
    rw [splitPlans] at found
    split at found
    · rename_i notLine
      obtain ⟨same, each⟩ := ih found
      refine ⟨?_, each⟩
      have skipped : locate? "line" (item, index) = none := by
        rw [isLineItem_eq] at notLine
        simp only [locate?]
        rw [if_neg (by simpa using notLine)]
      rw [filterMap_cons, skipped, same]
    · rename_i isLine
      simp only [bind_ok_iff, guard_ok_iff, pure_ok_iff] at found
      obtain ⟨filled, box, parsed, wide, left, -, others, foundRest, rfl⟩ := found
      obtain ⟨same, each⟩ := ih foundRest
      have located : locate? "line" (item, index) = some ⟨item.toObject, index, box⟩ := by
        rw [isLineItem_eq] at isLine
        refine locate?_eq_some.mpr ⟨rfl, rfl, by simpa using isLine, ?_⟩
        exact withContext_ok_iff.mp parsed
      refine ⟨?_, fun plan member => ?_⟩
      · rw [filterMap_cons, located, same]
        rfl
      · rcases mem_cons.mp member with rfl | later
        · exact ⟨filled, Nat.le_of_not_lt wide⟩
        · exact each plan later

theorem pageSplitPlans_eq {plans : List SplitPlan}
    (passed : pageSplitPlans draft = .ok plans) : plans = SplitCall.page.plans draft.items := by
  have all : (linesOf draft.items).filter (SplitCall.selects · .page) = linesOf draft.items :=
    filter_eq_self.mpr fun _ _ => rfl
  rw [(splitPlans_ok (pageSplitPlans_located passed)).1, SplitCall.plans, all]
  rfl

/-- The words made for the lines so far, by the positions of the lines. -/
structure WordsMade (ext : Externals) (draft : AnnotationDraft) (splits : List WordSplit)
    (state : PageSplit) : Prop where
  named : ∀ split ∈ splits, planIDs ext draft split.plan = .ok (split.generated.map wordID)
  derived : ∀ split ∈ splits, deriveSplitWords ext draft.identity.canvasURI split.plan.written
    split.plan.line.box
    split.plan.words (split.generated.map wordID) = .ok split.generated
  found : ∀ index, Assoc.get state.generatedByLineIndex index = (splitAt splits index).map
    WordSplit.generated

theorem WordsMade.step {ext : Externals} {owned : List Nat} {splits : List WordSplit}
    {state next : PageSplit} {plan : SplitPlan} (made : WordsMade ext draft splits state)
    (fresh : plan.line.index ∉ splits.map (·.plan.line.index))
    (stepped : splitPlan ext draft owned state plan = .ok next) :
    ∃ generated, WordsMade ext draft (splits ++ [⟨plan, generated⟩]) next := by
  simp only [splitPlan, bind_ok_iff, refusing_ok_iff, pure_ok_iff] at stepped
  obtain ⟨wordIDs, names, generated, derived, rfl⟩ := stepped
  obtain ⟨isNamed, -, -⟩ := planWordIDs_ok_iff.mp names
  have sameLength : wordIDs.length = plan.words.length := by
    simpa using (mapM_ok_iff.mp isNamed).length_eq.symm
  have isIDs := deriveSplitWords_ids sameLength derived
  refine ⟨generated, ?_, ?_, ?_⟩
  · intro split member
    rcases mem_append.mp member with old | new
    · exact made.named split old
    · rw [mem_singleton.mp new]
      simp only [isIDs]
      exact isNamed
  · intro split member
    rcases mem_append.mp member with old | new
    · exact made.derived split old
    · rw [mem_singleton.mp new]
      simp only [isIDs]
      exact derived
  · intro index
    rw [Assoc.get_set, made.found, splitAt, splitAt, find?_append]
    by_cases here : plan.line.index = index
    · have unseen : splits.find? (fun split => decide (split.plan.line.index = index)) = none := by
        rw [find?_eq_none]
        intro split member
        simpa using fun same : split.plan.line.index = index =>
          fresh (mem_map.mpr ⟨split, member, same.trans here.symm⟩)
      simp [here, unseen]
    · simp [here]

theorem wordsMade_of_ok {ext : Externals} {owned : List Nat} {plans : List SplitPlan}
    {state : PageSplit} (distinct : (plans.map (·.line.index)).Nodup)
    (run : plans.foldlM (splitPlan ext draft owned) ⟨draft.items, [], []⟩ = .ok state) :
    ∃ splits, splits.map WordSplit.plan = plans ∧ WordsMade ext draft splits state := by
  refine foldlM_invariant
    (fun done state => ∃ splits : List WordSplit, splits.map WordSplit.plan = done ∧
      WordsMade ext draft splits state) run
    ⟨[], rfl, by simp, by simp, by simp [splitAt]⟩ ?_
  rintro done plan rest state next split ⟨splits, rfl, made⟩ stepped
  have fresh : plan.line.index ∉ splits.map (·.plan.line.index) := by
    rw [split, map_append, map_cons, nodup_append] at distinct
    intro again
    refine distinct.2.2 plan.line.index ?_ _ mem_cons_self rfl
    rwa [map_map]
  obtain ⟨generated, made'⟩ := made.step fresh stepped
  exact ⟨splits ++ [⟨plan, generated⟩], by simp, made'⟩

theorem nodup_keys_assign (items : List Json) (eligible : Option (List String)) :
    (Assoc.keys (assignSpatialWordsToLines items eligible)).Nodup := by
  have groups :
      ∀ (pairs : List (String × PositionedWord)) (groups : List (String × List PositionedWord)),
          (Assoc.keys groups).Nodup → (Assoc.keys (pairs.foldl appendTo groups)).Nodup := by
    intro pairs
    induction pairs with
    | nil => exact fun _ distinct => distinct
    | cons pair rest ih => exact fun groups distinct => ih _ (Assoc.nodup_keys_set distinct _ _)
  have start : (Assoc.keys ([] : List (String × List PositionedWord))).Nodup := by simp [Assoc.keys]
  have all := groups (assignedPairs items eligible) [] start
  rw [Assoc.keys] at all ⊢
  rw [assignSpatialWordsToLines, map_map]
  exact all

/-- The words that a page split drops are those of any line. -/
theorem mem_ownedWordIndices {index : Nat} :
    index ∈ ownedWordIndices draft ↔
      ∃ lineID, ∃ word ∈ wordsOfLine (assignSpatialWordsToLines draft.items none) lineID,
        word.index = index := by
  rw [ownedWordIndices, mem_dedup, mem_flatMap]
  constructor
  · rintro ⟨⟨lineID, words⟩, member, isIndex⟩
    obtain ⟨word, listed, rfl⟩ := mem_map.mp isIndex
    have found := Assoc.get_of_mem (nodup_keys_assign draft.items none) member
    obtain ⟨anno, box, place, -, isOwned⟩ :=
      mem_sweptWords.mp (show word ∈ (Assoc.get (assignSpatialWordsToLines draft.items none)
          lineID).getD [] by
        rwa [found])
    exact ⟨lineID, ⟨anno, word.index, box⟩, mem_wordsOfLine.mpr ⟨place, isOwned⟩, rfl⟩
  · rintro ⟨lineID, word, listed, rfl⟩
    obtain ⟨place, isOwned⟩ := mem_wordsOfLine.mp listed
    have swept : (⟨word.index, word.box.x1, word.anno⟩ : PositionedWord) ∈
        (Assoc.get (assignSpatialWordsToLines draft.items none) lineID).getD [] :=
      mem_sweptWords.mpr ⟨word.anno, word.box, place, rfl, isOwned⟩
    cases found : Assoc.get (assignSpatialWordsToLines draft.items none) lineID with
    | none => simp [found] at swept
    | some words =>
      rw [found] at swept
      exact ⟨(lineID, words), Assoc.mem_of_get found, mem_map.mpr ⟨_, swept, rfl⟩⟩

section
variable {ext : Externals} {draft : AnnotationDraft} (plain : PlainPage draft.items)
include plain

theorem PlainPage.owner_line {word : Object} {box : Box}
    (isOwned : OwnedBy draft.items none word box lineID) :
    ∃ line ∈ linesOf draft.items, line.id = lineID := by
  obtain ⟨owner, ⟨position, may, -⟩, rfl⟩ := isOwned
  obtain ⟨lineBox, place, -⟩ := may.contains
  have level := (plain.plain _ (mem_of_getElem? place.item)).level
  rw [Json.toObject_obj] at level
  refine ⟨⟨owner, position, lineBox⟩, mem_locatedOf.mpr ⟨⟨_, place.item, rfl⟩, ?_, place.parsed⟩, rfl⟩
  rw [← granularity_tests level (.inl rfl)]
  exact place.isLevel

theorem PlainPage.mem_ownedWordIndices_iff {index : Nat} :
    index ∈ ownedWordIndices draft ↔ ∃ line ∈ linesOf draft.items,
      ∃ word ∈ wordsOfLine (assignSpatialWordsToLines draft.items none) line.id,
        word.index = index := by
  rw [mem_ownedWordIndices]
  constructor
  · rintro ⟨lineID, word, listed, isIndex⟩
    obtain ⟨line, isLine, rfl⟩ := plain.owner_line (mem_wordsOfLine.mp listed).2
    exact ⟨line, isLine, word, listed, isIndex⟩
  · rintro ⟨line, -, word, listed, isIndex⟩
    exact ⟨line.id, word, listed, isIndex⟩

omit plain in
theorem WordsMade.names {owned : List Nat} {splits : List WordSplit} {state : PageSplit}
    (made : WordsMade ext draft splits state)
    (reached : SplitReached ext draft owned (splits.map WordSplit.plan) state) :
    ((splits.flatMap WordSplit.generated).map wordID).Nodup ∧
      ∀ split ∈ splits, ∀ word ∈ split.generated, collides draft owned (wordID word) = false := by
  obtain ⟨ids, names, distinct, free, -⟩ := reached.named
  rw [mapM_map] at names
  obtain rfl := Except.ok.inj (names.symm.trans (mapM_eq_map made.named))
  constructor
  · rw [map_flatMap]
    exact distinct
  · intro split member word isWord
    exact free _ (mem_flatten.mpr ⟨_, mem_map.mpr ⟨split, member, rfl⟩, mem_map_of_mem isWord⟩)

theorem splitPage_ok {result : List Json} (ran : splitDraftPageIntoWords ext draft = .ok result) :
    ∃ owned splits, SplitDone ext draft SplitCall.page.seed owned splits ∧
      splits.map WordSplit.plan = SplitCall.page.plans draft.items ∧
      result = splitResult draft owned splits ∧
      ((splits.flatMap WordSplit.generated).map wordID).Nodup := by
  rw [splitDraftPageIntoWords_eq] at ran
  obtain ⟨plans, passed, ran⟩ := bind_ok_iff.mp ran
  rw [refusing_ok_iff] at passed
  obtain ⟨state, run, ran⟩ := bind_ok_iff.mp ran
  obtain rfl := pure_ok_iff.mp ran
  have plansOf := pageSplitPlans_plansOf passed
  have distinct := plansOf.distinct
  rw [map_map] at distinct
  obtain ⟨splits, rfl, made⟩ := wordsMade_of_ok distinct run
  have reached := splitReached_of_ok ext draft _ run
  obtain ⟨namesDistinct, free⟩ := made.names reached
  obtain ⟨located, each⟩ := splitPlans_ok (pageSplitPlans_located passed)
  have isPlans : splits.map WordSplit.plan = SplitCall.page.plans draft.items :=
    pageSplitPlans_eq passed
  rw [forall_mem_map] at each
  have writesOf : WritesOf draft.items (splits.map (·.plan.line)) := by
    rw [map_map] at plansOf
    exact plansOf
  -- Page order and tokens of the plans, read off the page itself.
  have isPlan : ∀ split ∈ splits, split.plan.line ∈ linesOf draft.items ∧
      split.plan.words = Go.fields split.plan.line.text := by
    intro split member
    have planned := located ▸ mem_map_of_mem (f := WordSplit.plan) member
    obtain ⟨line, isLine, same⟩ := mem_map.mp planned
    rw [← same]
    exact ⟨isLine, rfl⟩
  have done : SplitDone ext draft SplitCall.page.seed (ownedWordIndices draft) splits := by
    refine
      { lines := fun split member => (isPlan split member).1, distinct := by rwa [map_map] at distinct,
        filled := fun split member => (each split member).1, trimmed := ?_, wide := ?_, dropped := ?_,
        named := made.named, free := free, derived := made.derived }
    · intro split member word isWord
      rw [(isPlan split member).2] at isWord
      have isField := Go.fields_isField _ _ isWord
      exact ⟨isField.1, Go.trimSpace_of_isField isField⟩
    · intro split member
      have valid : split.plan.line.box.Valid :=
        Box.valid_of_parsed (mem_locatedOf.mp (isPlan split member).1).2.2
      have positive := valid.wide
      have fits := (each split member).2
      omega
    · intro index
      rw [plain.mem_ownedWordIndices_iff]
      constructor
      · rintro ⟨line, isLine, word⟩
        have planned : (⟨line, Go.fields line.text⟩ : SplitPlan) ∈ splits.map WordSplit.plan :=
          located ▸ mem_map.mpr ⟨line, isLine, rfl⟩
        obtain ⟨split, member, same⟩ := mem_map.mp planned
        exact ⟨split, member, by rw [same]; exact word⟩
      · rintro ⟨split, member, word⟩
        exact ⟨split.plan.line, (isPlan split member).1, word⟩
  refine ⟨_, splits, done, isPlans, ?_, namesDistinct⟩
  rw [splitResult_eq writesOf, reached.items]
  apply flatMap_congr
  intro entry _
  rw [made.found]
  cases splitAt splits entry.2 <;> rfl

theorem SplitCall.run_ok {call : SplitCall} {result : List Json}
    (ran : call.run ext draft = .ok result) :
    ∃ owned splits, SplitDone ext draft call.seed owned splits ∧
      splits.map WordSplit.plan = call.plans draft.items ∧ result = splitResult draft owned splits ∧
      (call = .page → ((splits.flatMap WordSplit.generated).map wordID).Nodup) := by
  cases call with
  | line lineID requested =>
    obtain ⟨owned, splits, done, isPlans, isResult⟩ := splitLine_ok plain ran
    exact ⟨owned, splits, done, isPlans, isResult, fun isPage => by cases isPage⟩
  | page =>
    obtain ⟨owned, splits, done, isPlans, isResult, distinct⟩ := splitPage_ok plain ran
    exact ⟨owned, splits, done, isPlans, isResult, fun _ => distinct⟩

end

end Scribe.Server
