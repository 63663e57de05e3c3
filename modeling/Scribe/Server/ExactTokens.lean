import Scribe.Data.Arrangement
import Scribe.Server.Alignment
import Scribe.Server.Retyping

/-! When the words of an edited line are exactly its tokens.

The alignment retains as many committed words as it can, and the shares of the box
tile the line. What can fail is the writing of a single word: its template may be
nested too deeply, its target may not take the share, its identifier may be taken,
and a body with a value before the first textual body hides the token.
-/

set_option autoImplicit false

namespace Scribe.Server

open Attempt Iiif List Json

/-! ## Writing one word -/

/-- A target can be rewritten for a box so that it reads as the box. -/
def TakesBox (ext : Externals) (target : Json) (canvasURI : String) (box : Box) : Prop :=
  ∃ rewritten, targetWithFragment ext target canvasURI box = .ok rewritten ∧
    annotationBox [("target", .obj rewritten)] = .ok box

def otherBodies : Json → List Json
  | .arr bodies => bodies.eraseP isTextualEntry
  | .obj body => [.obj body].eraseP isTextualEntry
  | _ => []

/-- Whether a text derived into some bodies is read back. Every read text is trimmed; an empty one
is read when the other bodies are empty, any other one when no body before the first textual one has
a value. -/
def textDerivable (raw : Json) (text : String) : Bool :=
  Go.trimSpace text = text && if text = "" then bodyText (.arr (otherBodies raw)) = ""
    else textLeads raw

/-- An annotation reads as a text, or does so once its first textual body is set to it. -/
def TakesText (anno : Object) (text : String) : Prop :=
  extractAnnotationText anno = text ∨ textDerivable (field anno "body") text = true

theorem bodyText_eq_empty_iff (bodies : List Json) : bodyText (.arr bodies) = "" ↔ ∀ entry ∈ bodies,
      entryText entry = "" := by
  induction bodies with
  | nil => simp [bodyText]
  | cons entry rest ih =>
    rw [bodyText_cons, forall_mem_cons]
    split
    · rename_i empty
      simp [empty, ih]
    · rename_i filled
      simp [filled]

theorem bodyText_otherBodies_of_empty {raw : Json} (empty : bodyText raw = "") :
    bodyText (.arr (otherBodies raw)) = "" := by
  rw [bodyText_eq_empty_iff]
  intro entry member
  cases raw with
  | arr bodies => exact (bodyText_eq_empty_iff bodies).mp empty entry (mem_of_mem_eraseP member)
  | obj body =>
    rw [mem_singleton.mp (mem_of_mem_eraseP member)]
    exact empty
  | _ => cases member

theorem bodyText_textBodyWithValue_empty (raw : Json) :
    bodyText (textBodyWithValue raw "") = bodyText (.arr (otherBodies raw)) := by
  have writer := replaceTextualBody_writer ""
  have textual : isTextualEntry (.obj (setTextualValue [] "")) = true :=
    isTextualBody_setTextualValue [] ""
  have given : field (Json.obj (setTextualValue [] "")).toObject "value" =
    .str "" := field_setTextualValue [] ""
  have listed := writer.reads_empty textual given trimSpace_empty
  cases raw with
  | arr bodies =>
    rw [textBodyWithValue_arr]
    exact listed bodies
  | obj body =>
    refine Eq.trans ?_ (listed [.obj body])
    simp only [textBodyWithValue, updateFirst]
    cases here : replaceTextualBody "" (.obj body) with
    | none => rfl
    | some updated => exact (writer.bodyText here).trans ((bodyText_singleton _).trans
      (entryText_of_field (writer.gives here).2)).symm
  | _ => simp [textBodyWithValue, otherBodies, bodyText, entryText_of_field given]

theorem bodyText_textBodyWithValue_iff (raw : Json) (text : String) :
    bodyText (textBodyWithValue raw (Go.trimSpace text)) = text ↔ bodyText raw = text ∨
      textDerivable raw text = true := by
  by_cases trimmed : Go.trimSpace text = text
  · simp only [trimmed, textDerivable, decide_true, Bool.true_and]
    by_cases empty : text = ""
    · subst empty
      rw [bodyText_textBodyWithValue_empty, if_pos rfl, decide_eq_true_eq]
      exact ⟨.inr, fun or => or.elim bodyText_otherBodies_of_empty id⟩
    · rw [if_neg empty, bodyText_textBodyWithValue raw trimmed empty]
      cases textLeads raw <;> simp
  · have never : ∀ value, bodyText value ≠ text := fun value same =>
      trimmed (same ▸ trimSpace_bodyText value)
    simp [never, textDerivable, trimmed]

theorem annotationBox_set_target (anno target : Object) :
    annotationBox (Assoc.set anno "target" (.obj target)) = annotationBox [("target", .obj target)] :=
  annotationBox_congr (by rw [field_set_self]; rfl)

theorem deriveTextAnnotation_reads_iff {ext : Externals} {template word : Object}
    {id granularity canvasURI token : String} {box : Box}
    (done : deriveTextAnnotation ext template id granularity canvasURI box token = .ok word) :
    (extractAnnotationText word = token ↔ TakesText template token) ∧
      (annotationBox word = .ok box ↔ TakesBox ext (field template "target") canvasURI box) := by
  constructor
  · rw [extractAnnotationText_derived done, bodyText_textBodyWithValue_iff, TakesText,
      extractAnnotationText_eq]
  · obtain ⟨-, target, made, rfl⟩ := deriveTextAnnotation_ok_iff.mp done
    rw [clearMutableEmbeddedResourceIDs, annotationBox_clearMutable,
      annotationBox_congr (field_updateField_of_ne _ _ (by decide)), annotationBox_set_target]
    constructor
    · exact fun boxed => ⟨target, made, boxed⟩
    · rintro ⟨other, sameMade, boxed⟩
      cases made.symm.trans sameMade
      exact boxed

section
variable (edit : TokenEdit) (found : List TokenMatch)

def ReadsAs (entry : String × Nat) (word : Object) : Prop :=
  extractAnnotationText word = entry.1 ∧ annotationBox word = .ok (edit.share entry.2)

end

section
variable {edit : TokenEdit} {found : List TokenMatch}

variable {entry : String × Nat}

structure TokensRun (edit : TokenEdit) (found : List TokenMatch) (used : List String)
    (entries : List (String × Nat)) (progress : TokenProgress) : Prop where
  words : List.Forall₂ (TokenMade edit found used) entries progress.generated
  inUse : used ⊆ progress.usedIDs
  removed : ∀ id, id ∈ progress.removed ↔ id ∈ edit.baseWords.map Located.id ∧
    ∀ entry ∈ entries, ∀ old, edit.matched found entry.2 = some old → old.id ≠ id
  newInUse : ∀ i word, progress.generated[i]? = some word → edit.matched found i = none →
    wordID word ∈ progress.usedIDs
  newDistinct : ∀ i j a b, i < j → progress.generated[i]? = some a → progress.generated[j]? = some b →
    edit.matched found i = none → edit.matched found j = none → wordID a ≠ wordID b

theorem TokensRun.start (edit : TokenEdit) (found : List TokenMatch) (used : List String) :
    TokensRun edit found used []
    { generated := [], removed := edit.baseWords.map (·.id), usedIDs := used } where
  words := .nil
  inUse := List.Subset.refl _
  removed := by simp
  newInUse := by simp
  newDistinct := by simp

section
variable {used : List String} {entries : List (String × Nat)} {state next : TokenProgress}
  {entry : String × Nat}

theorem TokensRun.keep (run : TokensRun edit found used entries state) {old : Located} {word : Object}
    (place : entry.2 = entries.length) (isMatched : edit.matched found entry.2 = some old)
    (isMade : updatedRetainedWord edit.ext (edit.template old) old.id edit.canvasURI
      (edit.share entry.2) entry.1 =
      .ok word) :
    TokensRun edit found used (entries ++ [entry]) { state with
      generated := state.generated ++ [word]
      removed := state.removed.filter (· ≠ old.id) } := by
  have lengths := run.words.length_eq
  -- a position of a word without a committed one is an earlier position
  have earlier : ∀ {i : Nat} {a : Object}, (state.generated ++ [word])[i]? = some a →
      edit.matched found i = none →
      state.generated[i]? = some a := by
    intro i a found_ unmatched
    rw [getElem?_append] at found_
    split at found_
    · exact found_
    · have last := (List.getElem?_eq_some_iff.mp found_).1
      rw [length_singleton] at last
      rw [show i = entry.2 by omega, isMatched] at unmatched
      cases unmatched
  refine
    { words := rel_append run.words (.cons (.retained isMatched isMade) .nil)
      inUse := run.inUse, removed := ?_, newInUse := ?_, newDistinct := ?_ }
  · intro id
    simp only [mem_filter, run.removed, ne_eq, decide_not, Bool.not_eq_true', decide_eq_false_iff_not,
      mem_append, mem_singleton, and_assoc]
    refine and_congr_right fun _ => ⟨?_, ?_⟩
    · rintro ⟨before, notOld⟩ other (member | rfl) old' isMatched'
      · exact before other member old' isMatched'
      · cases isMatched.symm.trans isMatched'
        exact fun same => notOld same.symm
    · intro all
      exact ⟨fun other member => all other (.inl member), fun same =>
        all entry (.inr rfl) old isMatched same.symm⟩
  · exact fun i a atI unmatched => run.newInUse i a (earlier atI unmatched) unmatched
  · exact fun i j a b less atI atJ newI newJ =>
      run.newDistinct i j a b less (earlier atI newI) (earlier atJ newJ) newI newJ

theorem TokensRun.add (run : TokensRun edit found used entries state) {id : String} {word : Object}
    (place : entry.2 = entries.length) (unmatched : edit.matched found entry.2 = none)
    (isFree : id ∉ state.usedIDs) (isMade : deriveTextAnnotation edit.ext edit.line.anno id "word"
      edit.canvasURI (edit.share entry.2) entry.1 =
      .ok word) :
    TokensRun edit found used (entries ++ [entry]) { state with
      generated := state.generated ++ [word]
      usedIDs := state.usedIDs ++ [id] } := by
  have lengths := run.words.length_eq
  have isID : wordID word = id := deriveTextAnnotation_id isMade
  -- A word made so far, or the new one.
  have split : ∀ {i : Nat} {a : Object}, (state.generated ++ [word])[i]? = some a →
      state.generated[i]? = some a ∨ i = state.generated.length ∧ a = word := by
    intro i a found_
    rw [getElem?_append] at found_
    split at found_
    · exact .inl found_
    · obtain ⟨last, isLast⟩ := List.getElem?_eq_some_iff.mp found_
      rw [length_singleton] at last
      exact .inr ⟨by omega, by simpa using isLast.symm⟩
  refine
    { words := rel_append run.words (.cons
      (.derived unmatched (fun wasUsed => isFree (run.inUse wasUsed)) isMade) .nil)
      inUse := fun other member => mem_append_left _ (run.inUse member), removed := ?_, newInUse := ?_
      newDistinct := ?_ }
  · intro other
    simp only [run.removed, mem_append, mem_singleton]
    refine and_congr_right fun _ => ⟨?_, fun all entry' member => all entry' (.inl member)⟩
    rintro before entry' (member | rfl) old isMatched
    · exact before entry' member old isMatched
    · rw [unmatched] at isMatched
      cases isMatched
  · intro i a atI isNew
    rcases split atI with before | ⟨-, rfl⟩
    · exact mem_append_left _ (run.newInUse i a before isNew)
    · exact mem_append_right _ (mem_singleton.mpr isID)
  · intro i j a b less atI atJ newI newJ
    rcases split atJ with beforeJ | ⟨lastJ, rfl⟩
    · rcases split atI with beforeI | ⟨lastI, rfl⟩
      · exact run.newDistinct i j a b less beforeI beforeJ newI newJ
      · have inside := (List.getElem?_eq_some_iff.mp beforeJ).1
        omega
    · rcases split atI with beforeI | ⟨lastI, rfl⟩
      · rw [isID]
        -- The identifiers of earlier new words are in use, and the new one was free.
        exact fun same => isFree (same ▸ run.newInUse i a beforeI newI)
      · omega

end

theorem TokenMade.box {used : List String} {word : Object} {read : Box}
    (made : TokenMade edit found used entry word) (valid : (edit.share entry.2).Valid)
    (parsed : annotationBox word = .ok read) : read = edit.share entry.2 := by
  cases made with
  | retained _ made =>
    exact retargetExistingWord_box (updatedRetainedWord_ok_iff.mp made).2 valid parsed
  | derived _ _ made =>
    obtain ⟨-, target, rewritten, rfl⟩ := deriveTextAnnotation_ok_iff.mp made
    rw [clearMutableEmbeddedResourceIDs, annotationBox_clearMutable,
      annotationBox_congr (field_updateField_of_ne _ _ (by decide))] at parsed
    exact box_of_targetHas (targetWithFragment_has rewritten) valid (field_set_self _ _ _) parsed

/-- The committed words kept in an edited line: as many as a longest common subsequence, in order,
under their own identifiers. The others are removed, and the remaining words have new
identifiers. -/
structure Retains (edit : TokenEdit) (tokens used : List String) (progress : TokenProgress)
    (kept : List TokenMatch) : Prop where
  increasing : kept.Pairwise TokenMatch.Before
  sameTexts : ∀ pair ∈ kept, pair.Valid edit.baseTokens tokens
  longest : CommonBound edit.baseTokens tokens kept.length
  ids : ∀ pair ∈ kept,
    progress.generated[pair.tokenIndex]?.map wordID = edit.baseWords[pair.baseIndex]?.map Located.id
  removed : ∀ id, id ∈ progress.removed ↔ id ∈ edit.baseWords.map Located.id ∧
    ∀ pair ∈ kept, edit.baseWords[pair.baseIndex]?.map Located.id ≠ some id
  fresh : ∀ i word, progress.generated[i]? = some word → i ∉ kept.map TokenMatch.tokenIndex →
    wordID word ∉ used
  distinct : ∀ i j a b, i < j → progress.generated[i]? = some a → progress.generated[j]? = some b →
    i ∉ kept.map TokenMatch.tokenIndex → j ∉ kept.map TokenMatch.tokenIndex → wordID a ≠ wordID b

section
variable {tokens used : List String} {progress : TokenProgress}

theorem matched_eq_some_iff (increasing : found.Pairwise TokenMatch.Before)
    (valid : ∀ pair ∈ found, pair.Valid edit.baseTokens tokens) {index : Nat} {old : Located} :
    edit.matched found index = some old ↔
      ∃ pair ∈ found, pair.tokenIndex = index ∧ edit.baseWords[pair.baseIndex]? = some old := by
  refine ⟨matched_eq_some, ?_⟩
  rintro ⟨pair, member, rfl, place⟩
  cases isMatched : edit.matched found pair.tokenIndex with
  | none =>
    rw [TokenEdit.matched, Option.bind_eq_none_iff] at isMatched
    cases searched : found.reverse.find? (·.tokenIndex = pair.tokenIndex) with
    | none => simpa using find?_eq_none.mp searched pair (mem_reverse.mpr member)
    | some other =>
      obtain ⟨token, atBase, -⟩ := valid other (mem_reverse.mp (mem_of_find?_eq_some searched))
      rw [TokenEdit.baseTokens, getElem?_map, isMatched other searched] at atBase
      cases atBase
  | some other =>
    obtain ⟨pair', member', sameToken, place'⟩ := matched_eq_some isMatched
    have symmetric : Std.Symm fun a b : TokenMatch => a.tokenIndex ≠ b.tokenIndex :=
      ⟨fun _ _ ne => ne.symm⟩
    have related : found.Pairwise fun a b => a.tokenIndex ≠ b.tokenIndex :=
      increasing.imp fun before => Nat.ne_of_lt before.2
    have same : pair' = pair := by
      by_contra apart
      exact related.forall member' member apart sameToken
    rw [← place', same, place]

theorem matched_eq_none_iff (increasing : found.Pairwise TokenMatch.Before)
    (valid : ∀ pair ∈ found, pair.Valid edit.baseTokens tokens) {index : Nat} :
    edit.matched found index = none ↔ index ∉ found.map TokenMatch.tokenIndex := by
  rw [← Option.not_isSome_iff_eq_none, not_iff_not, Option.isSome_iff_exists]
  simp only [matched_eq_some_iff increasing valid, mem_map]
  constructor
  · rintro ⟨old, pair, member, same, -⟩
    exact ⟨pair, member, same⟩
  · rintro ⟨pair, member, same⟩
    obtain ⟨token, atBase, -⟩ := valid pair member
    rw [TokenEdit.baseTokens, getElem?_map] at atBase
    obtain ⟨old, place, -⟩ := Option.map_eq_some_iff.mp atBase
    exact ⟨old, pair, member, same, place⟩

theorem TokensRun.retains (run : TokensRun edit found used tokens.zipIdx progress)
    (increasing : found.Pairwise TokenMatch.Before)
    (valid : ∀ pair ∈ found, pair.Valid edit.baseTokens tokens)
    (longest : CommonBound edit.baseTokens tokens found.length) :
    Retains edit tokens used progress found := by
  have matched_iff : ∀ {index : Nat} {old : Located}, edit.matched found index = some old ↔
      ∃ pair ∈ found, pair.tokenIndex = index ∧ edit.baseWords[pair.baseIndex]? = some old :=
    matched_eq_some_iff increasing valid
  have unmatched_iff : ∀ {index : Nat}, edit.matched found index = none ↔
      index ∉ found.map TokenMatch.tokenIndex :=
    matched_eq_none_iff increasing valid
  -- The word made for each position, from the run over the tokens.
  have made : ∀ i word, progress.generated[i]? = some word →
      ∃ token, tokens[i]? = some token ∧ TokenMade edit found used (token, i) word := by
    intro i word here
    have inside := (List.getElem?_eq_some_iff.mp here).1
    have bound : i < tokens.zipIdx.length := run.words.length_eq ▸ inside
    have related := run.words.get bound inside
    simp only [get_eq_getElem, getElem_zipIdx, Nat.zero_add] at related
    rw [(List.getElem?_eq_some_iff.mp here).2] at related
    exact ⟨_, getElem?_eq_getElem (by simpa using bound), related⟩
  refine
    { increasing := increasing, sameTexts := valid, longest := longest, ids := ?_,
      removed := ?_, fresh := ?_
      distinct := ?_ }
  · intro pair member
    obtain ⟨token, atBase, atToken⟩ := valid pair member
    rw [TokenEdit.baseTokens, getElem?_map] at atBase
    obtain ⟨old, place, -⟩ := Option.map_eq_some_iff.mp atBase
    have inside : pair.tokenIndex < progress.generated.length := by
      rw [← run.words.length_eq, length_zipIdx]
      exact (List.getElem?_eq_some_iff.mp atToken).1
    have here := getElem?_eq_getElem inside
    have isMatched := matched_iff.mpr ⟨pair, member, rfl, place⟩
    rw [here, place, Option.map_some, Option.map_some]
    obtain ⟨token', -, isMade⟩ := made _ _ here
    cases isMade with
    | retained isMatched' isMade =>
      cases isMatched.symm.trans isMatched'
      exact congrArg some (updatedRetainedWord_id isMade)
    | derived unmatched _ _ =>
      rw [isMatched] at unmatched
      cases unmatched
  · intro id
    rw [run.removed]
    refine and_congr_right fun _ => ⟨?_, ?_⟩
    · intro lost pair member retained
      obtain ⟨old, place, isID⟩ := Option.map_eq_some_iff.mp retained
      obtain ⟨token, -, atToken⟩ := valid pair member
      exact lost (token, pair.tokenIndex) (mem_zipIdx_iff_getElem?.mpr atToken) old
        (matched_iff.mpr ⟨pair, member, rfl, place⟩) isID
    · intro lost entry _ old isMatched isID
      obtain ⟨pair, member, -, place⟩ := matched_iff.mp isMatched
      exact lost pair member (by rw [place, ← isID]; rfl)
  · intro i word here new wasUsed
    obtain ⟨token, -, isMade⟩ := made i word here
    cases isMade with
    | retained isMatched _ =>
      rw [unmatched_iff.mpr new] at isMatched
      cases isMatched
    | derived _ isFresh isMade => exact isFresh <| deriveTextAnnotation_id isMade ▸ wasUsed
  · intro i j a b less atI atJ newI newJ
    exact run.newDistinct i j a b less atI atJ (unmatched_iff.mpr newI) (unmatched_iff.mpr newJ)

end

end

end Scribe.Server
