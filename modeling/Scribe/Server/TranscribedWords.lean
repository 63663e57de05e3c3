import Scribe.Server.CarriedWords

/-! The words of newly transcribed lines.

After a transcription the words of every line with a new text are given its tokens,
one each in the order of the sweep, or removed when their number differs. The editor
reads the words of a line in another order: by upper edges where the sweep goes by
centres. A line is left synchronized exactly when both orders give every word the
same token and the word can take it.
-/

set_option autoImplicit false

namespace Scribe.Server

open Iiif List

/-! ## The worker's reconciliation -/

/-- Give a word its token unless it reads as it. A new text leaves the textual body without its old
identity. -/
def retokenize (anno : Object) (token : String) : Object :=
  if extractAnnotationText anno = Go.trimSpace token then anno
  else updateField (setAnnotationText anno token) "body" clearFirstTextualBodyIdentity

def setToken (items : List Json) (entry : PositionedWord × String) : List Json :=
  items.set entry.1.index (.obj (retokenize (annotationAt items entry.1.index) entry.2))

/-- The items so far, and the positions of the words to remove. -/
structure Transcribing where
  items : List Json
  removed : List Nat

def transcribeLine (assigned : List (String × List PositionedWord)) (authoritative : List String)
    (state : Transcribing) (position : Nat) : Transcribing :=
  match state.items[position]? with
  | some (.obj line) =>
      if isGranularity line "line" = false then state
      else if annStringValue line "id" ∉ authoritative then state
      else
        let words := (Assoc.get assigned (annStringValue line "id")).getD []
        if words = [] then state
        else
          let tokens := Go.fields (extractAnnotationText line)
          if tokens.length ≠ words.length then
            { state with removed := state.removed ++ words.map (·.index) }
          else { state with items := (words.zip tokens).foldl setToken state.items }
  | _ => state

def reconcileTranscribedLineWords (items : List Json) (authoritative : List String) : List Json :=
  -- ownership is established against all lines, successful or not
  let assigned := assignSpatialWordsToLines items none
  let final := (List.range items.length).foldl (transcribeLine assigned authoritative) ⟨items, []⟩
  if final.removed = [] then final.items
  else (final.items.zipIdx.filter fun entry => entry.2 ∉ final.removed).map (·.1)

/-! ## What one line does -/

/-- The words of a line in the order of the sweep. -/
def sweptWords (items : List Json) (lineID : String) : List PositionedWord :=
  (Assoc.get (assignSpatialWordsToLines items none) lineID).getD []

structure TranscribedLine (items : List Json) (authoritative : List String)
    (line : Located) : Prop where
  item : items[line.index]? = some (.obj line.anno)
  isLine : isGranularity line.anno "line" = true
  chosen : line.id ∈ authoritative

def transcribedLine? (items : List Json) (authoritative : List String) (position : Nat) :
    Option Object :=
  if isGranularity (annotationAt items position) "line" ∧
    annStringValue (annotationAt items position) "id" ∈ authoritative
  then some (annotationAt items position) else none

section
variable (items : List Json) (authoritative : List String)

def lineTokens (position : Nat) : List (PositionedWord × String) :=
  match transcribedLine? items authoritative position with
  | some line =>
      let words := sweptWords items (annStringValue line "id")
      let tokens := Go.fields (extractAnnotationText line)
      if tokens.length = words.length then words.zip tokens else []
  | none => []

def lineRemovals (position : Nat) : List Nat :=
  match transcribedLine? items authoritative position with
  | some line =>
      let words := sweptWords items (annStringValue line "id")
      if (Go.fields (extractAnnotationText line)).length = words.length then []
      else words.map (·.index)
  | none => []

theorem transcribeLine_eq (state : Transcribing) (position : Nat)
    (same : transcribedLine? state.items authoritative position =
      transcribedLine? items authoritative position) :
    transcribeLine (assignSpatialWordsToLines items none) authoritative state position =
      ⟨(lineTokens items authoritative position).foldl setToken state.items,
        state.removed ++ lineRemovals items authoritative position⟩ := by
  have notLine : isGranularity [] "line" = false := by decide
  -- A position without a transcribed line changes nothing.
  have idle : transcribedLine? state.items authoritative position = none →
      (⟨(lineTokens items authoritative position).foldl setToken state.items,
        state.removed ++ lineRemovals items authoritative position⟩ : Transcribing) = state := by
    intro none
    rw [same] at none
    simp [lineTokens, lineRemovals, none]
  unfold transcribeLine
  cases here : state.items[position]? with
  | none =>
    refine (idle ?_).symm
    simp [transcribedLine?, annotationAt, here, Json.toObject, notLine]
  | some item =>
    cases item with
    | obj line =>
      have isAt : annotationAt state.items position = line := by simp [annotationAt, here]
      by_cases chosen : isGranularity line "line" = true ∧ annStringValue line "id" ∈ authoritative
      · have isLine : transcribedLine? items authoritative position = some line := by
          rw [← same, transcribedLine?, isAt, if_pos chosen]
        have words :
            (Assoc.get (assignSpatialWordsToLines items none) (annStringValue line "id")).getD [] =
          sweptWords items (annStringValue line "id") := rfl
        simp only [chosen.1, chosen.2, Bool.true_eq_false, if_false, not_true, words, lineTokens,
          lineRemovals, isLine]
        by_cases none : sweptWords items (annStringValue line "id") = []
        · simp [none]
        · by_cases count : (Go.fields (extractAnnotationText line)).length =
              (sweptWords items (annStringValue line "id")).length
          · simp [none, count]
          · simp [none, count]
      · rw [idle (by rw [transcribedLine?, isAt, if_neg chosen])]
        by_cases isLine : isGranularity line "line" = true
        · have unchosen : annStringValue line "id" ∉ authoritative :=
            fun member => chosen ⟨isLine, member⟩
          simp [isLine, unchosen]
        · simp [isLine]
    | _ =>
      refine (idle ?_).symm
      simp [transcribedLine?, annotationAt, here, Json.toObject, notLine]

end

/-! ## The loop over the lines -/

theorem field_retokenize (anno : Object) (token : String) {key : String} (notBody : "body" ≠ key) :
    Json.field (retokenize anno token) key = Json.field anno key := by
  unfold retokenize
  split
  · rfl
  · rw [field_updateField_of_ne _ _ notBody, setAnnotationText, Json.field_set_of_ne _ _ notBody]

theorem annotationAt_setToken (items : List Json) (entry : PositionedWord × String) (position : Nat) :
    annotationAt (setToken items entry) position =
      if position = entry.1.index ∧ position < items.length then
        retokenize (annotationAt items position) entry.2
      else annotationAt items position := by
  unfold annotationAt setToken
  by_cases here : position = entry.1.index
  · subst here
    by_cases inside : entry.1.index < items.length
    · simp [inside, annotationAt]
    · simp [inside]
  · simp [here, getElem?_set_ne (Ne.symm here)]

section
variable {items : List Json} {authoritative : List String}

def NoLines (items : List Json) (entries : List (PositionedWord × String)) : Prop :=
  ∀ entry ∈ entries, isGranularity (annotationAt items entry.1.index) "line" = false

theorem isGranularity_setToken (entry : PositionedWord × String) (position : Nat) :
    isGranularity (annotationAt (setToken items entry) position) "line" =
      isGranularity (annotationAt items position) "line" := by
  rw [annotationAt_setToken]
  split
  · rw [isGranularity, isGranularity, annStringValue_congr (field_retokenize _ _ (by decide))]
  · rfl

theorem transcribedLine?_setTokens {entries : List (PositionedWord × String)}
    (noLines : NoLines items entries) (position : Nat) :
    transcribedLine? (entries.foldl setToken items) authoritative position =
      transcribedLine? items authoritative position := by
  induction entries generalizing items with
  | nil => rfl
  | cons entry rest ih =>
    have here := noLines entry mem_cons_self
    have later : NoLines (setToken items entry) rest := fun other member => by
      rw [isGranularity_setToken]
      exact noLines other (mem_cons_of_mem _ member)
    rw [foldl_cons, ih later]
    by_cases at_ : position = entry.1.index ∧ position < items.length
    · have notLine : isGranularity (annotationAt items position) "line" = false := at_.1 ▸ here
      have stillNot := notLine
      rw [← isGranularity_setToken entry] at stillNot
      simp [transcribedLine?, notLine, stillNot]
    · rw [transcribedLine?, annotationAt_setToken, if_neg at_]
      rfl

/-- The loop gives every line's words their tokens and collects the removals. -/
theorem transcribe_eq (count : Nat)
    (noLines : ∀ position, NoLines items (lineTokens items authoritative position)) :
    (List.range count).foldl (transcribeLine (assignSpatialWordsToLines items none) authoritative)
      ⟨items, []⟩ =
      ⟨((List.range count).flatMap (lineTokens items authoritative)).foldl setToken items,
        (List.range count).flatMap (lineRemovals items authoritative)⟩ := by
  induction count with
  | zero => rfl
  | succ count ih =>
    have before : NoLines items ((List.range count).flatMap (lineTokens items authoritative)) := by
      intro entry member
      obtain ⟨position, -, inLine⟩ := mem_flatMap.mp member
      exact noLines position entry inLine
    have stepped := transcribeLine_eq items authoritative
      ⟨((List.range count).flatMap (lineTokens items authoritative)).foldl setToken items,
        (List.range count).flatMap (lineRemovals items authoritative)⟩ count
          (transcribedLine?_setTokens before count)
    rw [range_succ, foldl_append, ih, foldl_cons, foldl_nil, stepped]
    simp [flatMap_append]

theorem getElem?_setTokens_of_ne {entries : List (PositionedWord × String)} {position : Nat}
    (apart : position ∉ entries.map (·.1.index)) :
    (entries.foldl setToken items)[position]? = items[position]? := by
  induction entries generalizing items with
  | nil => rfl
  | cons entry rest ih =>
    rw [map_cons, mem_cons, not_or] at apart
    rw [foldl_cons, ih apart.2, setToken, getElem?_set_ne (Ne.symm apart.1)]

theorem length_setTokens (entries : List (PositionedWord × String)) :
    (entries.foldl setToken items).length = items.length := by
  induction entries generalizing items with
  | nil => rfl
  | cons entry rest ih => rw [foldl_cons, ih, setToken, length_set]

theorem getElem?_setTokens_of_mem {entries : List (PositionedWord × String)}
    (distinct : (entries.map (·.1.index)).Nodup) {entry : PositionedWord × String}
    (member : entry ∈ entries) (inside : entry.1.index < items.length) :
    (entries.foldl setToken items)[entry.1.index]? =
      some (.obj (retokenize (annotationAt items entry.1.index) entry.2)) := by
  obtain ⟨before, after, rfl⟩ := append_of_mem member
  rw [map_append, map_cons, nodup_append, nodup_cons] at distinct
  have notBefore : entry.1.index ∉ before.map (·.1.index) := fun early =>
    distinct.2.2 _ early _ mem_cons_self rfl
  have unread : annotationAt (before.foldl setToken items) entry.1.index =
      annotationAt items entry.1.index := by
    unfold annotationAt
    rw [getElem?_setTokens_of_ne notBefore]
  have inBefore : entry.1.index < (before.foldl setToken items).length := by
    rw [length_setTokens]
    exact inside
  rw [foldl_append, foldl_cons, getElem?_setTokens_of_ne distinct.2.1.1, setToken,
    getElem?_set_self inBefore, unread]

end

/-! ## Words and lines -/

section
variable {items : List Json} {authoritative : List String}

theorem transcribedLine?_eq_some {position : Nat} {line : Object} :
    transcribedLine? items authoritative position = some line ↔
      items[position]? = some (.obj line) ∧ isGranularity line "line" = true ∧
      annStringValue line "id" ∈ authoritative := by
  have notLine : isGranularity [] "line" = false := by decide
  unfold transcribedLine?
  constructor
  · intro found
    split at found
    · rename_i chosen
      obtain rfl := Option.some.inj found
      refine ⟨?_, chosen⟩
      unfold annotationAt at chosen ⊢
      cases here : items[position]? with
      | none => simp [here, Json.toObject, notLine] at chosen
      | some item =>
        cases item with
        | obj line => rfl
        | _ => simp [here, Json.toObject, notLine] at chosen
    · cases found
  · rintro ⟨here, chosen⟩
    have isAt : annotationAt items position = line := by simp [annotationAt, here]
    rw [isAt, if_pos chosen]

theorem mem_lineTokens {position : Nat} {entry : PositionedWord × String} :
    entry ∈ lineTokens items authoritative position ↔
      ∃ line, transcribedLine? items authoritative position = some line ∧
        (Go.fields (extractAnnotationText line)).length =
          (sweptWords items (annStringValue line "id")).length ∧
        ∃ k : Nat, (sweptWords items (annStringValue line "id"))[k]? = some entry.1 ∧
          (Go.fields (extractAnnotationText line))[k]? = some entry.2 := by
  unfold lineTokens
  cases transcribedLine? items authoritative position with
  | none => simp
  | some line =>
    simp only [Option.some.injEq, exists_eq_left']
    split
    · rename_i count
      rw [mem_iff_getElem?]
      simp only [getElem?_zip_eq_some, count, true_and]
    · rename_i count
      simp [count]

theorem mem_lineRemovals {position index : Nat} :
    index ∈ lineRemovals items authoritative position ↔
      ∃ line, transcribedLine? items authoritative position = some line ∧
        (Go.fields (extractAnnotationText line)).length ≠
          (sweptWords items (annStringValue line "id")).length ∧
        index ∈ (sweptWords items (annStringValue line "id")).map (·.index) := by
  unfold lineRemovals
  cases transcribedLine? items authoritative position with
  | none => simp
  | some line =>
    simp only [Option.some.injEq, exists_eq_left']
    split
    · rename_i count
      simp [count]
    · rename_i count
      simp [count]

theorem sweptWords_place {lineID : String} {word : PositionedWord}
    (member : word ∈ sweptWords items lineID) :
    ∃ box, SpatialAt items "word" word.index word.anno box ∧ word.x1 = box.x1 := by
  obtain ⟨anno, box, place, same, -⟩ := mem_sweptWords.mp member
  rw [same]
  exact ⟨box, place, rfl⟩

theorem sweptWords_eq_of_index {lineID otherID : String} {word other : PositionedWord}
    (member : word ∈ sweptWords items lineID) (otherMember : other ∈ sweptWords items otherID)
    (same : word.index = other.index) : word = other := by
  obtain ⟨box, place, left⟩ := sweptWords_place member
  obtain ⟨otherBox, otherPlace, otherLeft⟩ := sweptWords_place otherMember
  rw [same] at place
  have sameAnno := Json.obj.inj (Option.some.inj (place.item.symm.trans otherPlace.item))
  have sameBox : box = otherBox :=
    Except.ok.inj (place.parsed.symm.trans (sameAnno ▸ otherPlace.parsed))
  cases word
  cases other
  simp_all

theorem noLines (position : Nat) : NoLines items (lineTokens items authoritative position) := by
  intro entry member
  obtain ⟨line, -, -, k, atK, -⟩ := mem_lineTokens.mp member
  obtain ⟨box, place, -⟩ := sweptWords_place (mem_of_getElem? atK)
  have isAt : annotationAt items entry.1.index = entry.1.anno := by simp [annotationAt, place.item]
  rw [isAt]
  exact word_not_line place.isLevel

section
variable (distinct : (annotationIDs items).Nodup)
include distinct

theorem sweptWords_indices (lineID : String) : ((sweptWords items lineID).map (·.index)).Nodup := by
  have assigned := sweep_assigns_naively none distinct (.refl _)
  rw [List.Nodup, pairwise_map]
  refine (assigned.sorted lineID).imp_of_mem ?_
  intro a b memberA memberB before same
  rw [sweptWords_eq_of_index memberA memberB same] at before
  unfold beforeInLine aboveWord at before
  omega

theorem sweptWords_line {lineID otherID : String} {word other : PositionedWord}
    (member : word ∈ sweptWords items lineID) (otherMember : other ∈ sweptWords items otherID)
    (same : word.index = other.index) : lineID = otherID :=
  (sweep_assigns_naively none distinct (.refl _)).once lineID otherID word member other
    otherMember same

/-! ## The reconciled page -/

def givenTokens (items : List Json) (authoritative : List String) : List Json :=
  ((List.range items.length).flatMap (lineTokens items authoritative)).foldl setToken items

def removedWords (items : List Json) (authoritative : List String) : List Nat :=
  (List.range items.length).flatMap (lineRemovals items authoritative)

omit distinct in
theorem length_givenTokens : (givenTokens items authoritative).length = items.length :=
  length_setTokens _

omit distinct in
theorem reconcileTranscribedLineWords_eq :
    reconcileTranscribedLineWords items authoritative =
      ((givenTokens items authoritative).zipIdx.filter fun entry =>
        entry.2 ∉ removedWords items authoritative).map (·.1) := by
  have looped := transcribe_eq items.length (@noLines items authoritative)
  unfold reconcileTranscribedLineWords
  simp only [looped]
  split
  · rename_i nothing
    have none : removedWords items authoritative = [] := nothing
    simp [none, givenTokens]
  · rfl

omit distinct in
theorem transcribedLine?_inside {position : Nat} {line : Object}
    (found : transcribedLine? items authoritative position = some line) :
    position ∈ List.range items.length :=
  mem_range.mpr (List.getElem?_eq_some_iff.mp (transcribedLine?_eq_some.mp found).1).1

theorem givenTokens_distinct :
    (((List.range items.length).flatMap (lineTokens items authoritative)).map (·.1.index)).Nodup := by
  rw [map_flatMap, nodup_flatMap]
  constructor
  · intro position _
    unfold lineTokens
    cases transcribedLine? items authoritative position with
    | none => exact nodup_nil
    | some line =>
      simp only
      split
      · rename_i count
        have words : ((sweptWords items (annStringValue line "id")).zip
            (Go.fields (extractAnnotationText line))).map (·.1.index) =
              (sweptWords items (annStringValue line "id")).map (·.index) := by
          conv_rhs => rw [← map_fst_zip (Nat.le_of_eq count.symm)]
          rw [map_map]
          rfl
        rw [words]
        exact sweptWords_indices distinct _
      · exact nodup_nil
  · refine nodup_range.imp ?_
    intro p q apart index inP inQ
    obtain ⟨entry, member, rfl⟩ := mem_map.mp inP
    obtain ⟨other, otherMember, same⟩ := mem_map.mp inQ
    obtain ⟨line, found, -, k, atK, -⟩ := mem_lineTokens.mp member
    obtain ⟨otherLine, otherFound, -, j, atJ, -⟩ := mem_lineTokens.mp otherMember
    have sameID := sweptWords_line distinct (mem_of_getElem? atK) (mem_of_getElem? atJ) same.symm
    exact apart (position_eq_of_id distinct (transcribedLine?_eq_some.mp found).1
      (transcribedLine?_eq_some.mp otherFound).1 sameID)

def OwnedWord (items : List Json) (authoritative : List String) (position : Nat) : Prop :=
  ∃ lineID ∈ authoritative, position ∈ (sweptWords items lineID).map (·.index)

omit distinct in
theorem getElem?_givenTokens_of_other {position : Nat}
    (other : ¬ OwnedWord items authoritative position) :
    (givenTokens items authoritative)[position]? = items[position]? := by
  refine getElem?_setTokens_of_ne fun member => other ?_
  obtain ⟨entry, inside, rfl⟩ := mem_map.mp member
  obtain ⟨p, -, inLine⟩ := mem_flatMap.mp inside
  obtain ⟨line, found, -, k, atK, -⟩ := mem_lineTokens.mp inLine
  exact ⟨_, (transcribedLine?_eq_some.mp found).2.2, mem_map_of_mem (mem_of_getElem? atK)⟩

/-- Each word of a line with as many words as tokens is given the token of its place in the
sweep. -/
theorem getElem?_givenTokens {position k : Nat} {line : Object} {word : PositionedWord}
    {token : String} (found : transcribedLine? items authoritative position = some line)
    (count : (Go.fields (extractAnnotationText line)).length =
      (sweptWords items (annStringValue line "id")).length)
    (atWord : (sweptWords items (annStringValue line "id"))[k]? = some word)
    (atToken : (Go.fields (extractAnnotationText line))[k]? = some token) :
    (givenTokens items authoritative)[word.index]? = some (.obj (retokenize word.anno token)) := by
  obtain ⟨box, place, -⟩ := sweptWords_place (mem_of_getElem? atWord)
  have isAt : annotationAt items word.index = word.anno := by simp [annotationAt, place.item]
  have member : (word, token) ∈ (List.range items.length).flatMap (lineTokens items authoritative) :=
    mem_flatMap.mpr ⟨position, transcribedLine?_inside found,
      mem_lineTokens.mpr ⟨line, found, count, k, atWord, atToken⟩⟩
  have written := getElem?_setTokens_of_mem (givenTokens_distinct distinct) member
    (List.getElem?_eq_some_iff.mp place.item).1
  rw [← isAt]
  exact written

theorem givenTokens_keepsPlace {position : Nat} {old : Json} (here : items[position]? = some old) :
    ∃ new, (givenTokens items authoritative)[position]? = some new ∧ KeepsPlace old new := by
  by_cases given : position ∈ ((List.range items.length).flatMap
    (lineTokens items authoritative)).map (·.1.index)
  · obtain ⟨⟨word, token⟩, inside, rfl⟩ := mem_map.mp given
    obtain ⟨p, -, inLine⟩ := mem_flatMap.mp inside
    obtain ⟨line, found, count, k, atWord, atToken⟩ := mem_lineTokens.mp inLine
    obtain ⟨box, place, -⟩ := sweptWords_place (mem_of_getElem? atWord)
    cases place.item.symm.trans here
    exact ⟨_, getElem?_givenTokens distinct found count atWord atToken,
      .inr ⟨word.anno, _, rfl, rfl, fun key notBody => (field_retokenize _ _ notBody).symm⟩⟩
  · exact ⟨old, (getElem?_setTokens_of_ne given).trans here, .inl rfl⟩

omit distinct in
theorem mem_removedWords {index : Nat} :
    index ∈ removedWords items authoritative ↔
      ∃ position line, transcribedLine? items authoritative position = some line ∧
        (Go.fields (extractAnnotationText line)).length ≠
          (sweptWords items (annStringValue line "id")).length ∧
        index ∈ (sweptWords items (annStringValue line "id")).map (·.index) := by
  simp only [removedWords, mem_flatMap, mem_lineRemovals]
  constructor
  · rintro ⟨position, -, line, found, count, member⟩
    exact ⟨position, line, found, count, member⟩
  · rintro ⟨position, line, found, count, member⟩
    exact ⟨position, transcribedLine?_inside found, line, found, count, member⟩

def keptPositions (items : List Json) (authoritative : List String) : List Nat :=
  ((givenTokens items authoritative).zipIdx.filter fun entry =>
    entry.2 ∉ removedWords items authoritative).map (·.2)

omit distinct in
theorem mem_keptPositions {position : Nat} :
    position ∈ keptPositions items authoritative ↔ position < items.length ∧
      position ∉ removedWords items authoritative := by
  simp only [keptPositions, mem_map, mem_filter, decide_eq_true_eq, Prod.exists, exists_eq_right,
    mem_zipIdx_iff_getElem?]
  rw [← @length_givenTokens items authoritative]
  constructor
  · rintro ⟨item, here, stays⟩
    exact ⟨(List.getElem?_eq_some_iff.mp here).1, stays⟩
  · rintro ⟨inside, stays⟩
    exact ⟨_, getElem?_eq_getElem inside, stays⟩

theorem transcribed_carried :
    Carried items (reconcileTranscribedLineWords items authoritative)
    (keptPositions items authoritative) where
  increasing := by
    rw [keptPositions, pairwise_map]
    refine List.Pairwise.sublist filter_sublist (pairwise_map.mp ?_)
    rw [zipIdx_map_snd]
    exact pairwise_lt_range'
  same := by
    rw [reconcileTranscribedLineWords_eq, keptPositions, List.forall₂_map_left_iff,
      List.forall₂_map_right_iff, List.forall₂_same]
    rintro ⟨item, position⟩ member
    have here := mem_zipIdx_iff_getElem?.mp (mem_filter.mp member).1
    simp only at here ⊢
    have inside : position < items.length := by
      rw [← @length_givenTokens items authoritative]
      exact (List.getElem?_eq_some_iff.mp here).1
    obtain ⟨new, there, keeps⟩ :=
      @givenTokens_keepsPlace items authoritative distinct _ _ (getElem?_eq_getElem inside)
    cases here.symm.trans there
    exact ⟨_, getElem?_eq_getElem inside, keeps⟩
  lines position line box at_ := by
    refine mem_keptPositions.mpr ⟨(List.getElem?_eq_some_iff.mp at_.item).1, fun removed => ?_⟩
    obtain ⟨p, other, -, -, member⟩ := mem_removedWords.mp removed
    obtain ⟨word, swept, rfl⟩ := mem_map.mp member
    obtain ⟨wordBox, place, -⟩ := sweptWords_place swept
    cases place.item.symm.trans at_.item
    have isWord := place.isLevel
    have isLine := at_.isLevel
    simp only [hasLowerGranularity, Go.lowersTo, decide_eq_true_eq] at isWord isLine
    exact absurd (isWord.symm.trans isLine) (by decide)

/-! ## The words the editor reads -/

omit distinct in
theorem mem_sweptWords_of_wordsOfLine {lineID : String} {word : Located}
    (member : word ∈ wordsOfLine (assignSpatialWordsToLines items none) lineID) :
    (⟨word.index, word.box.x1, word.anno⟩ : PositionedWord) ∈ sweptWords items lineID := by
  obtain ⟨place, owned⟩ := mem_wordsOfLine.mp member
  exact mem_sweptWords.mpr ⟨word.anno, word.box, place, rfl, owned⟩

omit distinct in
theorem length_wordsOfLine (lineID : String) :
    (wordsOfLine (assignSpatialWordsToLines items none) lineID).length =
      (sweptWords items lineID).length := by
  rw [wordsOfLine, locatedWords, sortWithinLine, length_insertionSort, ← sweptWords]
  refine filterMap_length_eq_length.mpr fun word member => ?_
  obtain ⟨box, place, -⟩ := sweptWords_place member
  simp [locateWord?, place.parsed]

variable {line : Located} (isLine : TranscribedLine items authoritative line)
include isLine

omit distinct in
theorem TranscribedLine.found : transcribedLine? items authoritative line.index = some line.anno :=
  transcribedLine?_eq_some.mpr ⟨isLine.item, isLine.isLine, isLine.chosen⟩

omit distinct in
theorem TranscribedLine.words_removed (count : (Go.fields line.text).length ≠
      (sweptWords items line.id).length)
    (carried : Carried items (reconcileTranscribedLineWords items authoritative)
      (keptPositions items authoritative)) :
    wordsOfLine (assignSpatialWordsToLines (reconcileTranscribedLineWords items authoritative) none)
      line.id = [] := by
  have kept := carried.words line.id
  rw [filter_eq_nil_iff.mpr] at kept
  · exact map_eq_nil_iff.mp kept
  · intro word member
    have swept := mem_sweptWords_of_wordsOfLine member
    have removed : word.index ∈ removedWords items authoritative :=
      mem_removedWords.mpr ⟨line.index, line.anno, isLine.found, count, mem_map_of_mem swept⟩
    simpa [mem_keptPositions] using fun _ => removed

theorem TranscribedLine.words_kept (count : (Go.fields line.text).length =
      (sweptWords items line.id).length) :
    (wordsOfLine (assignSpatialWordsToLines (reconcileTranscribedLineWords items authoritative)
      none) line.id).map
        (Carried.origin items (keptPositions items authoritative)) =
      wordsOfLine (assignSpatialWordsToLines items none) line.id := by
  rw [(transcribed_carried distinct).words line.id, filter_eq_self]
  intro word member
  have swept := mem_sweptWords_of_wordsOfLine member
  obtain ⟨place, -⟩ := mem_wordsOfLine.mp member
  rw [decide_eq_true_eq, mem_keptPositions]
  refine ⟨(List.getElem?_eq_some_iff.mp place.item).1, fun removed => ?_⟩
  obtain ⟨p, other, found, differ, removedHere⟩ := mem_removedWords.mp removed
  obtain ⟨otherWord, otherSwept, same⟩ := mem_map.mp removedHere
  -- the word is swept for both lines, so they are one line
  have sameID := sweptWords_line distinct swept otherSwept same.symm
  have samePosition :=
    position_eq_of_id distinct isLine.item (transcribedLine?_eq_some.mp found).1 sameID
  rw [← samePosition, isLine.found] at found
  exact differ (Option.some.inj found ▸ count)

omit distinct isLine in
theorem text_of_origin {lineID : String} {word : Located}
    (member : word ∈ wordsOfLine (assignSpatialWordsToLines
      (reconcileTranscribedLineWords items authoritative) none) lineID) :
    word.text = extractAnnotationText (annotationAt (givenTokens items authoritative)
      (Carried.origin items (keptPositions items authoritative) word).index) := by
  obtain ⟨place, -⟩ := mem_wordsOfLine.mp member
  have here := place.item
  rw [reconcileTranscribedLineWords_eq, getElem?_map, Option.map_eq_some_iff] at here
  obtain ⟨⟨item, position⟩, listed, rfl⟩ := here
  have isKept : (keptPositions items authoritative)[word.index]? = some position := by
    rw [keptPositions, getElem?_map, listed]
    rfl
  have given := mem_zipIdx_iff_getElem?.mp (mem_filter.mp (mem_of_getElem? listed)).1
  simp only at given
  simp [Carried.origin, isKept, annotationAt, given, Located.text]

end

theorem text_retokenize {anno : Object} {token : String}
    (isField : Text.IsField Text.unicodeSpace token) :
    extractAnnotationText (retokenize anno token) =
      if textSettable (Json.field anno "body") token then token else extractAnnotationText anno := by
  have trimmed : Go.trimSpace token = token := Go.trimSpace_of_isField isField
  unfold retokenize
  rw [trimmed]
  split
  · rename_i same
    split
    · exact same
    · rfl
  · rw [extractAnnotationText_clearBody,
      extractAnnotationText_setAnnotationText_eq anno trimmed isField.1]

/-- In the editor's order every word of a line reads as its token once it is given the token of its
place in the sweep. -/
def OrdersAgree (items : List Json) (line : Located) : Prop :=
  ∀ (i k : Nat) (word : Located) (token given : String),
    (wordsOfLine (assignSpatialWordsToLines items none) line.id)[i]? = some word →
    (Go.fields line.text)[i]? = some token →
    (sweptWords items line.id)[k]? = some ⟨word.index, word.box.x1, word.anno⟩ →
    (Go.fields line.text)[k]? = some given →
    if textSettable (Json.field word.anno "body") given then given = token else word.text = token

/-- What the worker leaves behind: other items as they were and in their order, and every
transcribed line without words or synchronized with them. -/
structure WorkerSynchronizes (items : List Json) (authoritative : List String)
    (result : List Json) : Prop where
  others : ∃ kept : List Nat, kept.Pairwise (· < ·) ∧
    (∀ position < items.length, ¬ OwnedWord items authoritative position → position ∈ kept) ∧
    List.Forall₂ (fun position item => OwnedWord items authoritative position ∨
      items[position]? = some item) kept result
  lines : ∀ line, TranscribedLine items authoritative line →
    wordsOfLine (assignSpatialWordsToLines result none) line.id = [] ∨
      lineAndWordsSynchronized line (wordsOfLine (assignSpatialWordsToLines result none) line.id) =
        true

section
variable (distinct : (annotationIDs items).Nodup)
include distinct

theorem transcribed_others : ∃ kept : List Nat, kept.Pairwise (· < ·) ∧
    (∀ position < items.length, ¬ OwnedWord items authoritative position → position ∈ kept) ∧
    List.Forall₂ (fun position item => OwnedWord items authoritative position ∨
      items[position]? = some item) kept
      (reconcileTranscribedLineWords items authoritative) := by
  refine ⟨keptPositions items authoritative, (transcribed_carried distinct).increasing, ?_, ?_⟩
  · intro position inside other
    refine mem_keptPositions.mpr ⟨inside, fun removed => other ?_⟩
    obtain ⟨p, line, found, -, member⟩ := mem_removedWords.mp removed
    exact ⟨_, (transcribedLine?_eq_some.mp found).2.2, member⟩
  · rw [reconcileTranscribedLineWords_eq, keptPositions, List.forall₂_map_left_iff,
      List.forall₂_map_right_iff, List.forall₂_same]
    rintro ⟨item, position⟩ member
    have here := mem_zipIdx_iff_getElem?.mp (mem_filter.mp member).1
    by_cases owned : OwnedWord items authoritative position
    · exact .inl owned
    · exact .inr ((getElem?_givenTokens_of_other owned).symm.trans here)

theorem TranscribedLine.synchronized_iff {line : Located}
    (isLine : TranscribedLine items authoritative line)
    (count : (Go.fields line.text).length = (sweptWords items line.id).length) :
    lineAndWordsSynchronized line (wordsOfLine (assignSpatialWordsToLines
        (reconcileTranscribedLineWords items authoritative) none) line.id) = true ↔
          OrdersAgree items line := by
  have texts :
      (wordsOfLine (assignSpatialWordsToLines
        (reconcileTranscribedLineWords items authoritative) none) line.id).map (fun word => Go.trimSpace word.text) =
        (wordsOfLine (assignSpatialWordsToLines items none) line.id).map fun word =>
          extractAnnotationText (annotationAt (givenTokens items authoritative) word.index) := by
    rw [← isLine.words_kept distinct count, map_map]
    refine map_congr_left fun word member => ?_
    rw [text_of_origin member, extractAnnotationText_eq, trimSpace_bodyText]
    rfl
  have sameLength : (wordsOfLine (assignSpatialWordsToLines items none) line.id).length =
      (Go.fields line.text).length := by
    rw [length_wordsOfLine, count]
  -- the text a word is left with, from its place in the sweep
  have given_text : ∀ {k : Nat} {word : Located} {given : String},
      (sweptWords items line.id)[k]? = some ⟨word.index, word.box.x1, word.anno⟩ →
      (Go.fields line.text)[k]? = some given →
      extractAnnotationText (annotationAt (givenTokens items authoritative) word.index) =
        if textSettable (Json.field word.anno "body") given then given else word.text := by
    intro k word given atWord atToken
    have written := getElem?_givenTokens distinct isLine.found count atWord atToken
    have isField : Text.IsField Text.unicodeSpace given :=
      Go.fields_isField _ _ (mem_of_getElem? atToken)
    rw [annotationAt, written, Option.getD_some, Json.toObject_obj, text_retokenize isField]
    rfl
  rw [lineAndWordsSynchronized, decide_eq_true_eq, texts]
  constructor
  · intro same i k word token given atWord atToken sweptAt givenAt
    have here : token = extractAnnotationText (annotationAt (givenTokens items authoritative)
        word.index) := by
      rw [same, getElem?_map, atWord] at atToken
      exact (Option.some.inj atToken).symm
    rw [given_text sweptAt givenAt] at here
    split
    · rename_i settable
      rw [here, if_pos settable]
    · rename_i covered
      rw [here, if_neg covered]
  · intro agree
    refine ext_getElem (by rw [length_map, sameLength]) fun i inTokens inWords => ?_
    rw [length_map] at inWords
    rw [getElem_map]
    have atWord := getElem?_eq_getElem inWords
    have atToken := getElem?_eq_getElem inTokens
    obtain ⟨k, sweptAt⟩ := mem_iff_getElem?.mp (mem_sweptWords_of_wordsOfLine (mem_of_getElem? atWord))
    have inside : k < (Go.fields line.text).length := count ▸ (List.getElem?_eq_some_iff.mp sweptAt).1
    have givenAt := getElem?_eq_getElem inside
    have agreed := agree i k _ _ _ atWord atToken sweptAt givenAt
    rw [given_text sweptAt givenAt]
    split at agreed
    · rename_i settable
      rw [if_pos settable, agreed]
    · rename_i covered
      rw [if_neg covered, agreed]

end

end

/-- The worker synchronizes what it transcribed exactly when, for every transcribed line with as
many words as tokens, the order of the sweep and the order of the editor leave the same texts. -/
theorem worker_synchronizes_iff {items : List Json} (authoritative : List String)
    (distinct : (annotationIDs items).Nodup) :
    WorkerSynchronizes items authoritative (reconcileTranscribedLineWords items authoritative) ↔
      ∀ line, TranscribedLine items authoritative line →
        (Go.fields line.text).length = (sweptWords items line.id).length → OrdersAgree items line := by
  constructor
  · intro synchronizes line isLine count
    rcases synchronizes.lines line isLine with none | same
    · have kept := isLine.words_kept distinct count
      rw [none, map_nil] at kept
      intro i k word token given atWord
      rw [← kept] at atWord
      cases atWord
    · exact (isLine.synchronized_iff distinct count).mp same
  · intro agree
    refine ⟨transcribed_others distinct, fun line isLine => ?_⟩
    by_cases count : (Go.fields line.text).length = (sweptWords items line.id).length
    · exact .inr ((isLine.synchronized_iff distinct count).mpr (agree line isLine count))
    · exact .inl (isLine.words_removed count (transcribed_carried distinct))

def sideBySidePage : List Json :=
  [plainLine "L" "x y" "0,0,20,20", plainWord "A" "a" "0,0,10,16", plainWord "B" "b" "10,2,10,4"]

theorem worker_synchronizes_side_by_side :
    (annotationIDs sideBySidePage).Nodup ∧
    WorkerSynchronizes sideBySidePage ["L"] (reconcileTranscribedLineWords sideBySidePage ["L"]) := by
  have distinct : (annotationIDs sideBySidePage).Nodup := by decide +kernel
  have swept : (sweptWords sideBySidePage "L").map (·.index) = [1, 2] := by decide +kernel
  have read : (wordsOfLine (assignSpatialWordsToLines sideBySidePage none) "L").map (fun word =>
      (word.index, textSettable (Json.field word.anno "body") "x",
        textSettable (Json.field word.anno "body") "y")) =
        [(1, true, true), (2, true, true)] := by decide +kernel
  refine ⟨distinct, (worker_synchronizes_iff ["L"] distinct).mpr ?_⟩
  rintro ⟨anno, index, box⟩ ⟨item, isLevel, -⟩ _ i k word token given atWord atToken sweptAt givenAt
  have isFirst : anno = plainObject "https://h/c" "line" "L" "x y" "0,0,20,20" := by
    rcases index with _ | _ | _ | index
    · exact (Json.obj.inj (Option.some.inj item)).symm
    · cases item
      exact absurd isLevel (show ¬ isGranularity
          (plainObject "https://h/c" "word" "A" "a" "0,0,10,16") "line" = true by
        decide +kernel)
    · cases item
      exact absurd isLevel (show ¬ isGranularity
          (plainObject "https://h/c" "word" "B" "b" "10,2,10,4") "line" = true by
        decide +kernel)
    · cases item
  subst isFirst
  have tokens :
      Go.fields (extractAnnotationText (plainObject "https://h/c" "line" "L" "x y" "0,0,20,20")) =
      ["x", "y"] := by decide +kernel
  have isID : (⟨plainObject "https://h/c" "line" "L" "x y" "0,0,20,20", index, box⟩ : Located).id =
    "L" := rfl
  rw [Located.text, tokens] at atToken givenAt
  rw [isID] at atWord sweptAt
  have inRead := congrArg (·[i]?) read
  have inSwept := congrArg (·[k]?) swept
  simp only [getElem?_map, atWord, sweptAt, Option.map_some] at inRead inSwept
  rcases i with _ | _ | i <;> rcases k with _ | _ | k <;> simp_all

/-- A tall word over a short one with the same left edge: the sweep reads the short one first. -/
def stackedPage : List Json :=
  [plainLine "L" "x y" "0,0,20,20", plainWord "A" "a" "0,0,10,16", plainWord "B" "b" "0,2,10,4"]

theorem worker_swaps_stacked_words :
    (annotationIDs stackedPage).Nodup ∧
    (reconcileTranscribedLineWords stackedPage ["L"]).map
      (fun item => extractAnnotationText item.toObject) =
      ["x y", "y", "x"] ∧
    ¬ WorkerSynchronizes stackedPage ["L"] (reconcileTranscribedLineWords stackedPage ["L"]) := by
  refine ⟨by decide +kernel, by decide +kernel, fun synchronizes => ?_⟩
  have isLine : TranscribedLine stackedPage ["L"]
      ⟨plainObject "https://h/c" "line" "L" "x y" "0,0,20,20", 0, ⟨0, 0, 20, 20⟩⟩ :=
    ⟨rfl, by decide +kernel, by decide +kernel⟩
  rcases synchronizes.lines _ isLine with none | same
  · exact absurd none (by decide +kernel)
  · exact absurd same (by decide +kernel)

end Scribe.Server
