import Scribe.Server.TextEdits

/-! Retyping a line.

A line whose words are retyped in its own text keeps their identifiers and boxes
only if the text has the same tokens as before. Then its words are rewritten in
place; otherwise the tokens without a committed match become new words, and every
word gets an equal share of the line's box.
-/

set_option autoImplicit false

namespace Scribe.Server

open Iiif List

/-- A retyped line keeps its words: the page has the same identifiers, each word has
its box and the token at its position, and nothing else changes. -/
structure RetypeKeeps (base result : List Json) (line : Located) (words : List Located)
    (tokens : List String) : Prop where
  ids : (result.map itemID).Perm (base.map itemID)
  retyped : List.Forall₂ (fun (word : Located) (token : String) => ∃ anno, Json.obj anno ∈ result ∧
    annStringValue anno "id" = word.id ∧ isGranularity anno "word" = true ∧
    annotationBox anno = .ok word.box ∧
    extractAnnotationText anno = token) words tokens
  others : ∀ item ∈ base, itemID item ≠ line.id → itemID item ∉ words.map Located.id → item ∈ result

/-- The tokens of the line are as committed. If its text is, the words have those tokens;
otherwise the words stand in equal shares of the line and their bodies give the tokens back. -/
def RetypeSafe (proposed : List Json) (line : Located) (words : List Located) : Prop :=
  Go.fields (line.refresh proposed).text = Go.fields line.text ∧
    ∀ entry ∈ (words.zip (Go.fields (line.refresh proposed).text)).zipIdx,
      if (line.refresh proposed).text = line.text then (entry.1.1.refresh proposed).text = entry.1.2
      else entry.1.1.box = dividedWordBox line.box entry.2 words.length ∧
        ((entry.1.1.refresh proposed).text = entry.1.2 ∨
          textLeads (Json.field (entry.1.1.refresh proposed).anno "body") = true)

instance (proposed : List Json) (line : Located) (words : List Located) :
    Decidable (RetypeSafe proposed line words) := inferInstanceAs (Decidable (_ ∧ _))

theorem retypeSafe_iff {proposed : List Json} {line : Located} {words : List Located} :
    RetypeSafe proposed line words ↔ Go.fields (line.refresh proposed).text = Go.fields line.text ∧
      ∀ (i : Nat) (word : Located) (token : String), words[i]? = some word →
        (Go.fields (line.refresh proposed).text)[i]? = some token →
        if (line.refresh proposed).text = line.text then (word.refresh proposed).text = token
        else word.box = dividedWordBox line.box i words.length ∧
          ((word.refresh proposed).text = token ∨
            textLeads (Json.field (word.refresh proposed).anno "body") = true) := by
  refine and_congr_right fun _ => ⟨fun safe i word token atWord atToken => ?_,
    fun safe entry member => ?_⟩
  · refine safe ((word, token), i) (mem_zipIdx_iff_getElem?.mpr ?_)
    exact getElem?_zip_eq_some.mpr ⟨atWord, atToken⟩
  · obtain ⟨⟨word, token⟩, i⟩ := entry
    obtain ⟨atWord, atToken⟩ := getElem?_zip_eq_some.mp (mem_zipIdx_iff_getElem?.mp member)
    exact safe i word token atWord atToken

theorem share_grows {width i count : Nat} (positive : 0 < count) (wide : count ≤ width) :
    width * i / count < width * (i + 1) / count := by
  have grows : width * i / count + 1 = (width * i + count) / count :=
    (Nat.add_div_right _ positive).symm
  have most : (width * i + count) / count ≤ width * (i + 1) / count := by
    apply Nat.div_le_div_right
    rw [Nat.mul_succ]
    omega
  omega

theorem dividedWordBox_valid {line : Box} (valid : line.Valid) {i count : Nat} (inside : i < count)
    (wide : count ≤ line.x2 - line.x1) : (dividedWordBox line i count).Valid := by
  have nonempty : count ≠ 0 := by omega
  have left := valid.wide
  have tall := valid.tall
  have right := valid.right
  have bottom := valid.bottom
  have next : (line.x2 - line.x1) * i / count < (line.x2 - line.x1) * (i + 1) / count :=
    share_grows (Nat.pos_of_ne_zero nonempty) wide
  have last : (line.x2 - line.x1) * (i + 1) / count ≤ line.x2 - line.x1 := by
    apply Nat.div_le_of_le_mul
    rw [Nat.mul_comm count]
    exact Nat.mul_le_mul_left _ inside
  simp only [dividedWordBox, nonempty, if_false]
  constructor <;> simp only <;> omega

theorem mem_inj_of_ids {items : List Json} (distinct : (items.map itemID).Nodup) {a b : Json}
    (memberA : a ∈ items) (memberB : b ∈ items) (same : itemID a = itemID b) : a = b :=
  inj_on_of_nodup_map distinct memberA memberB same

theorem matched_self (edit : TokenEdit) {count i : Nat} (inside : i < count) :
    edit.matched ((List.range count).map fun index => ⟨index, index⟩) i = edit.baseWords[i]? := by
  unfold TokenEdit.matched
  cases searched : ((List.range count).map fun index => (⟨index, index⟩ : TokenMatch)).reverse.find?
      (·.tokenIndex = i) with
  | none =>
    have missing := find?_eq_none.mp searched ⟨i, i⟩ (by simpa using inside)
    simp at missing
  | some pair =>
    have member := mem_reverse.mp (mem_of_find?_eq_some searched)
    obtain ⟨index, _, rfl⟩ := mem_map.mp member
    have isIndex : index = i := by simpa using find?_some searched
    simp [isIndex]

section
variable {canvasURI : String} {base proposed result : List Json} {line : Located}
  {input : ReconcileInput} {state : ReconcileState}
  (draft : RetextedLine base proposed line (wordsOwnedBy base none line.id))
  (one : OneLineSave canvasURI base proposed line input state result)
include draft one

theorem OneLineSave.state_ids : state.items.map itemID = base.map itemID := by
  obtain ⟨lineIDs, saved⟩ := one.saved
  rw [saved.item_ids, draft.retexted.item_ids]

theorem OneLineSave.same_text_iff (sameText : (line.refresh proposed).text = line.text)
    (count : (Go.fields (line.refresh proposed).text).length =
      (wordsOwnedBy base none line.id).length) :
    RetypeKeeps base result line (wordsOwnedBy base none line.id)
    (Go.fields (line.refresh proposed).text) ↔
      RetypeSafe proposed line (wordsOwnedBy base none line.id) := by
  have notEdited : (retextView base proposed line).decision ≠ .tokenEdit := by
    rw [retextView_decision, sameText]
    simp only [ne_eq, not_true_eq_false, false_and, if_false]
    split_ifs <;> simp
  -- A line whose text is as committed is not edited, so nothing is removed or generated.
  have noneDropped : ∀ item, isDropped state item = false := by
    intro item
    have notRemoved : itemID item ∉ state.removeWordIDs :=
      fun isRemoved => notEdited ((one.removed _).mp isRemoved).1
    simp [isDropped, notRemoved]
  have members : ∀ item, item ∈ result ↔ item ∈ state.items := by
    intro item
    rw [one.mem_result draft, one.unedited notEdited]
    simp [noneDropped]
  obtain ⟨lineIDs, saved⟩ := one.saved
  have ids : (result.map itemID).Perm (base.map itemID) := by
    rw [perm_ext_iff_of_nodup saved.ids_nodup one.save.pageBase.distinct, ← one.state_ids draft]
    intro id
    simp only [mem_map, members]
  have proposedWord : ∀ word ∈ wordsOwnedBy base none line.id,
      Json.obj (word.refresh proposed).anno ∈ result ∧
      annStringValue (word.refresh proposed).anno "id" = word.id ∧
      isGranularity (word.refresh proposed).anno "word" = true ∧
      annotationBox (word.refresh proposed).anno = .ok word.box := by
    intro word member
    have isWord := (mem_wordsOwnedBy.mp member).1
    obtain ⟨here, inItems⟩ := one.word_item draft isWord
    have located := mem_locatedOf.mp here
    exact ⟨(members _).mpr inItems, draft.retexted.refresh_id isWord, located.2.1, located.2.2⟩
  rw [retypeSafe_iff]
  constructor
  · intro keeps
    refine ⟨by rw [sameText], ?_⟩
    intro i word token atWord atToken
    rw [if_pos sameText]
    obtain ⟨bound, isWord⟩ := List.getElem?_eq_some_iff.mp atWord
    obtain ⟨inside, isToken⟩ := List.getElem?_eq_some_iff.mp atToken
    obtain ⟨anno, member, sameID, _, _, text⟩ :=
      (List.forall₂_iff_get.mp keeps.retyped).2 i bound inside
    simp only [get_eq_getElem, isWord, isToken] at sameID text
    obtain ⟨inResult, wordID, _⟩ := proposedWord word (mem_of_getElem? atWord)
    have item := mem_inj_of_ids saved.ids_nodup member inResult (sameID.trans wordID.symm)
    rw [Located.text, ← Json.obj.inj item]
    exact text
  · intro safe
    refine ⟨ids, List.forall₂_iff_get.mpr ⟨count.symm, ?_⟩, fun item => one.keeps_others draft⟩
    intro i bound inside
    have atWord : (wordsOwnedBy base none line.id)[i]? = some (wordsOwnedBy base none line.id)[i] :=
      getElem?_eq_getElem bound
    have text := safe.2 i _ _ atWord (getElem?_eq_getElem inside)
    rw [if_pos sameText] at text
    obtain ⟨inResult, sameID, isWord, box⟩ := proposedWord _ (mem_of_getElem? atWord)
    exact ⟨_, inResult, sameID, isWord, box, text⟩

/-- The token edit that a retyped line goes through. -/
structure RetypeEdit (canvasURI : String) (base proposed : List Json) (line : Located)
    (input : ReconcileInput) (generated : List Object) (found : List TokenMatch)
    (used : List String) : Prop where
  known : base.map itemID ⊆ used
  wide : (Go.fields (line.refresh proposed).text).length ≤ line.box.x2 - line.box.x1
  aligned : ∃ cells rest,
    longestCommonTokenMatches ((wordsOwnedBy base none line.id).map fun word => Go.trimSpace word.text)
      (Go.fields (line.refresh proposed).text) cells = .ok (found, rest)
  made : List.Forall₂ (TokenMade ((retextView base proposed line).tokenEdit input) found used)
    (Go.fields (line.refresh proposed).text).zipIdx generated

theorem OneLineSave.retypeEdit (newText : (line.refresh proposed).text ≠ line.text)
    (owns : wordsOwnedBy base none line.id ≠ [])
    (count : (Go.fields (line.refresh proposed).text).length =
      (wordsOwnedBy base none line.id).length) :
    (retextView base proposed line).decision = .tokenEdit ∧
      ∃ found used, RetypeEdit canvasURI base proposed line input (generatedFor state line.id)
        found used := by
  have sameIDs : sameWordIDMembership (wordsOwnedBy base none line.id)
      ((wordsOwnedBy base none line.id).map (Located.refresh proposed)) = true := by
    simp only [sameWordIDMembership, length_map, decide_true, Bool.true_and, all_eq_true, mem_map,
      decide_eq_true_eq]
    rintro _ ⟨word, member, rfl⟩
    exact ⟨word, member, (draft.retexted.refresh_id (mem_wordsOwnedBy.mp member).1).symm⟩
  have decided : (retextView base proposed line).decision = .tokenEdit := by
    rw [retextView_decision, if_pos ⟨newText.symm, owns⟩, if_pos sameIDs]
  obtain ⟨used, known, edited⟩ := one.edited decided
  obtain ⟨found, progress, cells, rest, aligned, made, same⟩ := edited.made
  refine ⟨decided, found, used, draft.retexted.item_ids ▸ known, ?_, ⟨cells, rest, aligned⟩,
    same ▸ made.words⟩
  rcases edited.wide with none | wide
  · have empty : (Go.fields (line.refresh proposed).text).length = 0 := by
      rw [show Go.fields (line.refresh proposed).text = [] from none]
      rfl
    omega
  · exact wide

end

section
variable {canvasURI : String} {base proposed result : List Json} {line : Located}
  {input : ReconcileInput} {state : ReconcileState}
  (draft : RetextedLine base proposed line (wordsOwnedBy base none line.id))
  (one : OneLineSave canvasURI base proposed line input state result) {found : List TokenMatch}
  {used : List String}
  (edit : RetypeEdit canvasURI base proposed line input (generatedFor state line.id) found used)
include draft one edit

theorem RetypeEdit.token_made {i : Nat} {token : String}
    (atToken : (Go.fields (line.refresh proposed).text)[i]? = some token) :
    ∃ word, (generatedFor state line.id)[i]? = some word ∧ .obj word ∈ result ∧
      TokenMade ((retextView base proposed line).tokenEdit input) found used (token, i) word := by
  obtain ⟨sameLength, each⟩ := List.forall₂_iff_get.mp edit.made
  obtain ⟨inside, isToken⟩ := List.getElem?_eq_some_iff.mp atToken
  rw [length_zipIdx] at sameLength
  have bound : i < (generatedFor state line.id).length := sameLength ▸ inside
  have made := each i (by simpa using inside) bound
  simp only [get_eq_getElem, getElem_zipIdx, isToken, zero_add] at made
  refine ⟨_, getElem?_eq_getElem bound, ?_, made⟩
  exact (one.mem_result draft).mpr (.inr ⟨_, getElem_mem bound, rfl⟩)

theorem RetypeEdit.tokens_eq (ids : (result.map itemID).Perm (base.map itemID))
    (count : (Go.fields (line.refresh proposed).text).length = (wordsOwnedBy base none line.id).length)
    (synchronized : Go.fields line.text = (wordsOwnedBy base none line.id).map fun word =>
      Go.trimSpace word.text) :
    Go.fields (line.refresh proposed).text = Go.fields line.text := by
  obtain ⟨cells, rest, aligned⟩ := edit.aligned
  rw [synchronized]
  refine (eq_of_all_matched aligned (by rw [length_map]; exact count.symm) ?_).symm
  intro i inside
  obtain ⟨word, _, member, made⟩ := edit.token_made draft one (getElem?_eq_getElem inside)
  cases made with
  | retained matched _ =>
    obtain ⟨pair, isFound, isIndex, _⟩ := matched_eq_some matched
    exact ⟨pair, isFound, isIndex⟩
  | derived _ fresh made =>
    have isID : itemID (.obj word) = _ := deriveTextAnnotation_id made
    have inBase := ids.mem_iff.mp (mem_map_of_mem member)
    rw [isID] at inBase
    exact absurd (edit.known inBase) fresh

theorem RetypeEdit.word_made {identity : PageIdentity} (isIdentity : input.identity = identity)
    (onCanvas : Go.trimSpace identity.canvasURI = canvasURI)
    (synchronized : Go.fields line.text = (wordsOwnedBy base none line.id).map fun word =>
      Go.trimSpace word.text)
    (same : Go.fields (line.refresh proposed).text = Go.fields line.text)
    {i : Nat} {word : Located} {token : String}
    (atWord : (wordsOwnedBy base none line.id)[i]? = some word)
    (atToken : (Go.fields (line.refresh proposed).text)[i]? = some token) :
    ∃ anno, (generatedFor state line.id)[i]? = some anno ∧ .obj anno ∈ result ∧
      annStringValue anno "id" = word.id ∧
      isGranularity anno "word" = true ∧ Placed anno canvasURI
        (dividedWordBox line.box i (wordsOwnedBy base none line.id).length) ∧
      (word.box = dividedWordBox line.box i (wordsOwnedBy base none line.id).length →
        annotationBox anno = .ok word.box) ∧
      (extractAnnotationText anno = token ↔ (word.refresh proposed).text = token ∨
        textLeads (Json.field (word.refresh proposed).anno "body") = true) := by
  obtain ⟨made, place, member, isMade⟩ := edit.token_made draft one atToken
  obtain ⟨cells, rest, aligned⟩ := edit.aligned
  have isWord := (mem_wordsOwnedBy.mp (mem_of_getElem? atWord)).1
  obtain ⟨here, _⟩ := one.word_item draft isWord
  have inside : i < (Go.fields (line.refresh proposed).text).length :=
    (List.getElem?_eq_some_iff.mp atToken).1
  have count : (Go.fields (line.refresh proposed).text).length =
      (wordsOwnedBy base none line.id).length := by
    rw [same, synchronized, length_map]
  -- Equal token lists are aligned with themselves, position by position.
  have isFound : found = (List.range (Go.fields (line.refresh proposed).text).length).map
      fun index => ⟨index, index⟩ := by
    rw [← synchronized, ← same, longestCommonTokenMatches_self] at aligned
    exact (Prod.mk.inj (Except.ok.inj aligned)).1.symm
  have matched : ((retextView base proposed line).tokenEdit input).matched found i = some word := by
    rw [isFound, matched_self _ inside]
    exact atWord
  have template : ((retextView base proposed line).tokenEdit input).template word =
      (word.refresh proposed).anno := by
    have distinct : (((wordsOwnedBy base none line.id).map (Located.refresh proposed)).map
        Located.id).Nodup := by
      rw [← draft.retexted.wordsOwnedBy_eq]
      exact one.save.pageProposed.owned_ids_nodup none line.id
    have got := get_keyed distinct (mem_map_of_mem (mem_of_getElem? atWord))
    rw [draft.retexted.refresh_id isWord] at got
    unfold TokenEdit.template
    rw [show ((retextView base proposed line).tokenEdit input).proposedWords =
      keyed ((wordsOwnedBy base none line.id).map (Located.refresh proposed)) from rfl, got]
  have lineBox : (retextView base proposed line).placedLine.box = line.box := LineView.placedLine_box _
  have share : ((retextView base proposed line).tokenEdit input).share i =
      dividedWordBox line.box i (wordsOwnedBy base none line.id).length := by
    rw [← count, ← lineBox]
    rfl
  have valid : (dividedWordBox line.box i (wordsOwnedBy base none line.id).length).Valid := by
    have lineValid : line.box.Valid := Box.valid_of_parsed (mem_locatedOf.mp draft.isLine).2.2
    exact dividedWordBox_valid lineValid (count ▸ inside) (count ▸ edit.wide)
  have isToken := Go.fields_isField _ token (mem_of_getElem? atToken)
  have canvas : extractCanvasURI (word.refresh proposed).anno = Go.trimSpace identity.canvasURI := by
    rw [onCanvas]
    exact (one.save.pageProposed.located_canonical here).canvas
  -- Every token is matched, so no word of the line is derived anew.
  cases isMade with
  | derived unmatched => rw [matched] at unmatched; cases unmatched
  | retained isMatched built =>
    rw [matched] at isMatched
    obtain rfl := Option.some.inj isMatched
    have level := updatedRetainedWord_level built
    have isID := updatedRetainedWord_id built
    rw [template, share, show ((retextView base proposed line).tokenEdit input).canvasURI =
      identity.canvasURI from
      congrArg PageIdentity.canvasURI isIdentity] at built
    obtain ⟨placed, stays, text⟩ :=
      updatedRetainedWord_reads built valid canvas (Go.trimSpace_of_isField isToken) isToken.1
    refine ⟨made, place, member, isID, ?_, onCanvas ▸ placed, ?_, text⟩
    · rw [isGranularity, level]
      decide
    · intro inShare
      rw [inShare]
      apply stays
      rw [← inShare]
      exact (mem_locatedOf.mp here).2.2

theorem RetypeEdit.new_text_iff {identity : PageIdentity} (isIdentity : input.identity = identity)
    (onCanvas : Go.trimSpace identity.canvasURI = canvasURI)
    (newText : (line.refresh proposed).text ≠ line.text)
    (count : (Go.fields (line.refresh proposed).text).length =
      (wordsOwnedBy base none line.id).length)
    (synchronized : Go.fields line.text = (wordsOwnedBy base none line.id).map fun word =>
      Go.trimSpace word.text) :
    RetypeKeeps base result line (wordsOwnedBy base none line.id)
    (Go.fields (line.refresh proposed).text) ↔
      RetypeSafe proposed line (wordsOwnedBy base none line.id) := by
  obtain ⟨lineIDs, saved⟩ := one.saved
  rw [retypeSafe_iff]
  constructor
  · intro keeps
    have same := edit.tokens_eq draft one keeps.ids count synchronized
    refine ⟨same, ?_⟩
    intro i word token atWord atToken
    rw [if_neg newText]
    obtain ⟨made, _, member, isID, _, placed, _, text⟩ :=
      edit.word_made draft one isIdentity onCanvas synchronized same atWord atToken
    obtain ⟨bound, isWord⟩ := List.getElem?_eq_some_iff.mp atWord
    obtain ⟨inside, isToken⟩ := List.getElem?_eq_some_iff.mp atToken
    obtain ⟨anno, inResult, sameID, _, box, isText⟩ :=
      (List.forall₂_iff_get.mp keeps.retyped).2 i bound inside
    simp only [get_eq_getElem, isWord, isToken] at sameID box isText
    -- Identifiers are unique in the result, so the kept word is the one that was made.
    have isMade :=
      Json.obj.inj (mem_inj_of_ids saved.ids_nodup inResult member (sameID.trans isID.symm))
    subst isMade
    exact ⟨placed.box _ box, text.mp isText⟩
  · intro safe
    have same := safe.1
    refine ⟨?_, List.forall₂_iff_get.mpr ⟨count.symm, ?_⟩, fun item => one.keeps_others draft⟩
    · rw [perm_ext_iff_of_nodup saved.ids_nodup one.save.pageBase.distinct]
      intro id
      constructor
      · intro member
        obtain ⟨item, inResult, rfl⟩ := mem_map.mp member
        rcases (one.mem_result draft).mp inResult with ⟨inItems, _⟩ | ⟨word, generated, rfl⟩
        · rw [← one.state_ids draft]
          exact mem_map_of_mem inItems
        · obtain ⟨i, bound, rfl⟩ := getElem_of_mem generated
          have inside : i < (Go.fields (line.refresh proposed).text).length := by
            have sameLength := edit.made.length_eq
            rw [length_zipIdx] at sameLength
            exact sameLength ▸ bound
          have atWord := getElem?_eq_getElem (count ▸ inside)
          obtain ⟨made, atMade, _, isID, _⟩ :=
            edit.word_made draft one isIdentity onCanvas synchronized same atWord
              (getElem?_eq_getElem inside)
          rw [getElem?_eq_getElem bound] at atMade
          rw [Option.some.inj atMade, show itemID (.obj made) = _ from isID]
          have isWord := (mem_wordsOwnedBy.mp (mem_of_getElem? atWord)).1
          exact mem_map.mpr ⟨_, mem_of_getElem? (one.save.pageBase.located_item isWord), rfl⟩
      · intro member
        rw [← one.state_ids draft] at member
        obtain ⟨item, inItems, rfl⟩ := mem_map.mp member
        cases dropped : isDropped state item with
        | false => exact mem_map_of_mem ((one.mem_result draft).mpr (.inl ⟨inItems, dropped⟩))
        -- A dropped word is a committed word of the line, which was made again under its
        -- identifier.
        | true =>
          simp only [isDropped, Bool.and_eq_true, decide_eq_true_eq] at dropped
          obtain ⟨word, owned, sameID⟩ := mem_map.mp ((one.removed _).mp dropped.1).2
          obtain ⟨i, bound, rfl⟩ := getElem_of_mem owned
          obtain ⟨made, _, inResult, isID, _⟩ :=
            edit.word_made draft one isIdentity onCanvas synchronized same
            (getElem?_eq_getElem bound) (getElem?_eq_getElem (count.symm ▸ bound))
          exact mem_map.mpr ⟨_, inResult, isID.trans sameID⟩
    · intro i bound inside
      have atWord : (wordsOwnedBy base none line.id)[i]? = some (wordsOwnedBy base none line.id)[i] :=
        getElem?_eq_getElem bound
      have atToken := getElem?_eq_getElem inside
      have stands := safe.2 i _ _ atWord atToken
      rw [if_neg newText] at stands
      obtain ⟨made, _, member, isID, isWord, _, stays, text⟩ :=
        edit.word_made draft one isIdentity onCanvas synchronized same atWord atToken
      exact ⟨made, member, isID, isWord, stays stands.1, text.mpr stands.2⟩

end

/-- Retyping a synchronized line with as many tokens keeps its words exactly when the
tokens are as committed and the words already stand and read as the save leaves them. -/
theorem retype_keeps_words_iff {canvasURI : String} {base proposed result : List Json} {line : Located}
    {words : List Located} {ext : Externals} {order : IterationOrder} {identity : PageIdentity}
    {revision : Nat} (page : CanonicalPage canvasURI base)
    (onCanvas : Go.trimSpace identity.canvasURI = canvasURI)
    (isWords : wordsOfLine (assignSpatialWordsToLines base none) line.id = words)
    (owns : words ≠ []) (synchronized : lineAndWordsSynchronized line words = true)
    (draft : RetextedLine base proposed line words)
    (count : (Go.fields (line.refresh proposed).text).length = words.length)
    (done : reconcileEditedLineWords ext order base proposed identity revision = .ok result) :
    RetypeKeeps base result line words (Go.fields (line.refresh proposed).text) ↔
      RetypeSafe proposed line words := by
  rw [page.wordsOfLine_eq] at isWords
  subst isWords
  have tokens : Go.fields line.text = (wordsOwnedBy base none line.id).map fun word =>
      Go.trimSpace word.text := by
    simpa [lineAndWordsSynchronized] using synchronized
  obtain ⟨pageID, claims, state, one⟩ := draft.oneLineSave page done
  by_cases sameText : (line.refresh proposed).text = line.text
  · exact one.same_text_iff draft sameText count
  · obtain ⟨_, found, used, edit⟩ := one.retypeEdit draft sameText owns count
    exact edit.new_text_iff draft one rfl onCanvas sameText count tokens

def twoWordLine : Located := ⟨plainObject "https://h/c" "line" "L" "a b" "0,0,10,4", 0, ⟨0, 0, 10, 4⟩⟩

def twoWords : List Located :=
  [⟨plainObject "https://h/c" "word" "A" "a" "0,0,5,4", 1, ⟨0, 0, 5, 4⟩⟩,
    ⟨plainObject "https://h/c" "word" "B" "b" "5,0,5,4", 2, ⟨5, 0, 10, 4⟩⟩]

theorem twoWordPage_retexted (text first second : String) :
    RetextedLine (twoWordPage "a b" "a" "b") (twoWordPage text first second) twoWordLine twoWords where
  isLine := by decide +kernel
  retexted := by
    have same : ∀ level id old new xywh,
        SameButBody (.obj (plainObject "https://h/c" level id old xywh))
        (.obj (plainObject "https://h/c" level id new xywh)) := by
      intro level id old new xywh
      refine ⟨_, _, rfl, rfl, fun key apart => ?_⟩
      exact field_plainObject _ _ _ _ _ _ apart
    exact .cons (same _ _ _ _ _) (.cons (same _ _ _ _ _) (.cons (same _ _ _ _ _) .nil))
  others := by
    have covered : ∀ item ∈ twoWordPage "a b" "a" "b",
        itemID item = twoWordLine.id ∨ itemID item ∈ twoWords.map Located.id := by decide +kernel
    intro i item here notLine notWord
    rcases covered item (mem_of_getElem? here) with isLine | isWord
    · exact absurd isLine notLine
    · exact absurd isWord notWord

theorem retype_keeps_words_wider_space :
    ∃ result, reconcileEditedLineWords plainExternals listedOrder (twoWordPage "a b" "a" "b")
        (twoWordPage "a  b" "a" "b") plainIdentity 1 = .ok result ∧
      RetypeKeeps (twoWordPage "a b" "a" "b") result twoWordLine twoWords ["a", "b"] := by
  obtain ⟨result, done, -⟩ := Attempt.exists_ok_of_toOption
    (show (reconcileEditedLineWords plainExternals listedOrder (twoWordPage "a b" "a" "b")
      (twoWordPage "a  b" "a" "b") plainIdentity 1).toOption.map List.length =
        some 3 by decide +kernel)
  have tokens : Go.fields (twoWordLine.refresh (twoWordPage "a  b" "a" "b")).text = ["a", "b"] := by
    decide +kernel
  have page : CanonicalPage "https://h/c" (twoWordPage "a b" "a" "b") := by decide +kernel
  have keeps := (retype_keeps_words_iff page (by decide +kernel) (by decide +kernel) (by decide)
    (by decide +kernel) (twoWordPage_retexted "a  b" "a" "b") (by decide +kernel) done).mpr
      (by decide +kernel)
  rw [tokens] at keeps
  exact ⟨result, done, keeps⟩

/-- Retyping the second of two words gives it a new identifier. -/
theorem retype_replaces_word :
    CanonicalPage "https://h/c" (twoWordPage "a b" "a" "b") ∧
    wordsOfLine (assignSpatialWordsToLines (twoWordPage "a b" "a" "b") none)
      twoWordLine.id = twoWords ∧
    lineAndWordsSynchronized twoWordLine twoWords = true ∧
    RetextedLine (twoWordPage "a b" "a" "b") (twoWordPage "a c" "a" "c") twoWordLine twoWords ∧
    (Go.fields (twoWordLine.refresh (twoWordPage "a c" "a" "c")).text).length = twoWords.length ∧
    ∃ result, reconcileEditedLineWords plainExternals listedOrder (twoWordPage "a b" "a" "b")
        (twoWordPage "a c" "a" "c") plainIdentity 1 = .ok result ∧
      ¬ RetypeKeeps (twoWordPage "a b" "a" "b") result twoWordLine twoWords ["a", "c"] := by
  refine ⟨by decide +kernel, by decide +kernel, by decide +kernel, twoWordPage_retexted "a c" "a" "c",
    by decide +kernel, ?_⟩
  obtain ⟨result, done, lost⟩ := Attempt.exists_ok_of_toOption
    (show (reconcileEditedLineWords plainExternals listedOrder (twoWordPage "a b" "a" "b")
      (twoWordPage "a c" "a" "c") plainIdentity 1).toOption.map (fun result =>
        decide ("B" ∈ result.map itemID)) =
        some false by decide +kernel)
  refine ⟨result, done, fun keeps => of_decide_eq_false lost ?_⟩
  exact keeps.ids.mem_iff.mpr (by decide +kernel)

end Scribe.Server
