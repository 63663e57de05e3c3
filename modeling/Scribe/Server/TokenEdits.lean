import Scribe.Server.ReadBack
import Scribe.Server.Reconciliation

/-! The words of an edited line.

Every token of the new text gives one word. A token matched with a committed word
keeps that word's identifier and annotation; any other gets an identifier that is
not in use. Both get the token's share of the line's box.
-/

set_option autoImplicit false

namespace Scribe.Server

open Iiif List Attempt

def wordID (word : Object) : String := annStringValue word "id"

namespace TokenEdit

def baseTokens (edit : TokenEdit) : List String :=
  edit.baseWords.map fun word => Go.trimSpace word.text

def matched (edit : TokenEdit) (found : List TokenMatch) (index : Nat) : Option Located :=
  (found.reverse.find? (·.tokenIndex = index)).bind fun pair => edit.baseWords[pair.baseIndex]?

def template (edit : TokenEdit) (word : Located) : Object :=
  match Assoc.get edit.proposedWords word.id with
  | some proposed => proposed.anno
  | none => word.anno

def share (edit : TokenEdit) (index : Nat) : Box := dividedWordBox edit.line.box index edit.count

end TokenEdit

section
variable {edit : TokenEdit} {found : List TokenMatch}

theorem reconcileToken_ok_iff {progress next : TokenProgress} {entry : String × Nat} :
    reconcileToken edit found progress entry = .ok next ↔
      (∃ old word, edit.matched found entry.2 = some old ∧
        updatedRetainedWord edit.ext (edit.template old) old.id edit.canvasURI (edit.share entry.2)
          entry.1 = .ok word ∧
        next = { progress with
          generated := progress.generated ++ [word]
          removed := progress.removed.filter (· ≠ old.id) }) ∨
      (∃ id word, edit.matched found entry.2 = none ∧
        availableReconciledWordID edit.ext edit.pageID edit.line.id edit.expectedRevision
          entry.2 entry.1
          progress.usedIDs = .ok id ∧
        deriveTextAnnotation edit.ext edit.line.anno id "word" edit.canvasURI (edit.share entry.2)
          entry.1 = .ok word ∧
        next = { progress with
          generated := progress.generated ++ [word]
          usedIDs := progress.usedIDs ++ [id] }) := by
  obtain ⟨token, index⟩ := entry
  -- The body of the loop in terms of the edit's own alignment and shares.
  have unfolded : reconcileToken edit found progress (token, index) =
      match edit.matched found index with
      | some old => do
          let word ← updatedRetainedWord edit.ext (edit.template old) old.id edit.canvasURI
            (edit.share index) token
          return { progress with
            generated := progress.generated ++ [word]
            removed := progress.removed.filter (· ≠ old.id) }
      | none => do
          let id ← availableReconciledWordID edit.ext edit.pageID edit.line.id
            edit.expectedRevision index token
            progress.usedIDs
          let word ← deriveTextAnnotation edit.ext edit.line.anno id "word" edit.canvasURI
            (edit.share index) token
          return { progress with
            generated := progress.generated ++ [word]
            usedIDs := progress.usedIDs ++ [id] } := rfl
  rw [unfolded]
  cases edit.matched found index with
  | some old =>
    simp only [bind_ok_iff, pure_ok_iff, Option.some.injEq, reduceCtorEq, false_and, exists_false,
      or_false, exists_and_left, exists_eq_left']
    exact exists_congr fun word => and_congr_right fun _ => eq_comm
  | none =>
    simp only [bind_ok_iff, pure_ok_iff, reduceCtorEq, false_and, exists_false, false_or, true_and,
      exists_and_left]
    exact exists_congr fun id => and_congr_right fun _ => exists_congr fun word =>
      and_congr_right fun _ => eq_comm

theorem availableFrom_fresh {ext : Externals} {pageID lineID token id : String}
    {revision index fuel nonce : Nat} {used : List String}
    (done : availableFrom ext pageID lineID revision index token used fuel nonce = .ok id) :
    id ∉ used := by
  induction fuel generalizing nonce with
  | zero => cases done
  | succ fuel ih =>
    obtain ⟨candidate, _, chosen⟩ := bind_ok_iff.mp done
    split at chosen
    · exact ih chosen
    · rename_i unused
      exact pure_ok_iff.mp chosen ▸ unused

theorem reconcileLineTokens_ok_iff {tokens used : List String} {cells rest : Nat}
    {progress : TokenProgress} : reconcileLineTokens edit tokens used cells = .ok (progress, rest) ↔
      (tokens = [] ∨ tokens.length ≤ edit.line.box.x2 - edit.line.box.x1) ∧
      ∃ found, longestCommonTokenMatches edit.baseTokens tokens cells = .ok (found, rest) ∧
        tokens.zipIdx.foldlM (reconcileToken edit found)
          { generated := [], removed := edit.baseWords.map (·.id), usedIDs := used } =
            .ok progress := by
  unfold reconcileLineTokens
  by_cases narrow : tokens ≠ [] ∧ edit.line.box.x2 - edit.line.box.x1 < tokens.length
  · have refused : ¬ (tokens = [] ∨ tokens.length ≤ edit.line.box.x2 - edit.line.box.x1) := by
      rintro (none | wide)
      · exact narrow.1 none
      · omega
    rw [if_pos narrow, eq_false refused, false_and, iff_false]
    exact fun done => throw_ne_ok (bind_ok_iff.mp done).choose_spec.1
  · have wide : tokens = [] ∨ tokens.length ≤ edit.line.box.x2 - edit.line.box.x1 := by
      by_cases none : tokens = []
      · exact .inl none
      · exact .inr (Nat.le_of_not_lt fun less => narrow ⟨none, less⟩)
    simp only [narrow, if_false, wide, true_and, bind_ok_iff, pure_ok_iff, Prod.exists, Prod.mk.injEq]
    constructor
    · rintro ⟨found, left, aligned, made, folded, rfl, rfl⟩
      exact ⟨found, aligned, folded⟩
    · rintro ⟨found, aligned, folded⟩
      exact ⟨found, rest, aligned, progress, folded, rfl, rfl⟩

/-! ## All words of a line -/

/-- The word made for one token. -/
inductive TokenMade (edit : TokenEdit) (found : List TokenMatch) (used : List String)
    (entry : String × Nat) : Object → Prop where
  | retained {old : Located} {word : Object} (matched : edit.matched found entry.2 = some old)
      (made : updatedRetainedWord edit.ext (edit.template old) old.id edit.canvasURI
        (edit.share entry.2) entry.1 =
        .ok word) : TokenMade edit found used entry word
  | derived {id : String} {word : Object} (unmatched : edit.matched found entry.2 = none)
      (fresh : id ∉ used)
      (made : deriveTextAnnotation edit.ext edit.line.anno id "word" edit.canvasURI
        (edit.share entry.2) entry.1 =
        .ok word) : TokenMade edit found used entry word

theorem TokenMade.level {used : List String} {entry : String × Nat} {word : Object}
    (made : TokenMade edit found used entry word) :
    annStringValue word "textGranularity" = "word" := by
  cases made with
  | retained _ made => exact updatedRetainedWord_level made
  | derived _ _ made => exact deriveTextAnnotation_level made

theorem TokenMade.isWord {used : List String} {entry : String × Nat} {word : Object}
    (made : TokenMade edit found used entry word) :
    isGranularity word "word" = true ∧ isGranularity word "line" = false := by
  rw [isGranularity, isGranularity, made.level]
  decide

/-- What the loop over some tokens has made. -/
structure TokensMade (edit : TokenEdit) (found : List TokenMatch) (used : List String)
    (entries : List (String × Nat)) (progress : TokenProgress) : Prop where
  words : List.Forall₂ (TokenMade edit found used) entries progress.generated
  kept : used ⊆ progress.usedIDs
  removed : progress.removed ⊆ edit.baseWords.map Located.id
  inUse : ∀ word ∈ progress.generated, wordID word ∈ progress.usedIDs
  origin : ∀ word ∈ progress.generated, wordID word ∈ used →
    ∃ entry ∈ entries, ∃ old, edit.matched found entry.2 = some old ∧ old.id = wordID word
  distinct : (progress.generated.map wordID).Nodup

theorem matched_eq_some {index : Nat} {old : Located}
    (isMatched : edit.matched found index = some old) :
    ∃ pair ∈ found, pair.tokenIndex = index ∧ edit.baseWords[pair.baseIndex]? = some old := by
  obtain ⟨pair, searched, place⟩ := Option.bind_eq_some_iff.mp isMatched
  exact ⟨pair, mem_reverse.mp (mem_of_find?_eq_some searched),
    by simpa using find?_some searched, place⟩

section
variable (increasing : found.Pairwise TokenMatch.Before)
  (distinct : (edit.baseWords.map Located.id).Nodup)
include increasing distinct

theorem matched_injective {i j : Nat} {a b : Located} (atI : edit.matched found i = some a)
    (atJ : edit.matched found j = some b) (same : a.id = b.id) : i = j := by
  obtain ⟨first, inFirst, rfl, placeA⟩ := matched_eq_some atI
  obtain ⟨second, inSecond, rfl, placeB⟩ := matched_eq_some atJ
  have bound := (List.getElem?_eq_some_iff.mp placeA).1
  have sameIndex : first.baseIndex = second.baseIndex := by
    apply (getElem?_inj (by simpa using bound) distinct).mp
    simp [placeA, placeB, same]
  by_contra apart
  have symmetric : Std.Symm fun a b : TokenMatch => a.baseIndex ≠ b.baseIndex :=
    ⟨fun _ _ ne => ne.symm⟩
  have related : found.Pairwise fun a b => a.baseIndex ≠ b.baseIndex :=
    increasing.imp fun before => Nat.ne_of_lt before.1
  exact related.forall inFirst inSecond (fun one => apart (one ▸ rfl)) sameIndex

/-- The loop over the tokens makes one word for each, with distinct identifiers. -/
theorem tokensMade {tokens used : List String} {progress : TokenProgress}
    (known : edit.baseWords.map Located.id ⊆ used)
    (done : tokens.zipIdx.foldlM (reconcileToken edit found)
      { generated := [], removed := edit.baseWords.map (·.id), usedIDs := used } = .ok progress) :
    TokensMade edit found used tokens.zipIdx progress := by
  refine foldlM_invariant (fun entries progress =>
    TokensMade edit found used entries progress) done ?_ ?_
  · exact
      { words := .nil, kept := List.Subset.refl _, removed := List.Subset.refl _, inUse := by simp
        origin := by simp, distinct := by simp }
  · intro entries entry rest state next split made stepped
    have earlier : ∀ other ∈ entries, other.2 ≠ entry.2 := by
      have ordered : (tokens.zipIdx.map Prod.snd).Nodup := by
        rw [zipIdx_map_snd]
        exact nodup_range'
      rw [split, map_append, map_cons, nodup_append] at ordered
      exact fun other member => ordered.2.2 _ (mem_map_of_mem member) _ mem_cons_self
    rcases reconcileToken_ok_iff.mp stepped with
        ⟨old, word, isMatched, isMade, rfl⟩ | ⟨id, word, unmatched, isFree, isMade, rfl⟩
    -- A matched token keeps its word; an earlier token with the same word is excluded by the
    -- alignment.
    · have isOld : old ∈ edit.baseWords := by
        obtain ⟨_, _, _, place⟩ := matched_eq_some isMatched
        exact mem_of_getElem? place
      have isID : wordID word = old.id := updatedRetainedWord_id isMade
      have inUsed : wordID word ∈ used := isID ▸ known (mem_map_of_mem isOld)
      refine
        { words := rel_append made.words (.cons (.retained isMatched isMade) .nil)
          kept := made.kept
          removed := fun id member => made.removed (mem_of_mem_filter member)
          inUse := ?_, origin := ?_, distinct := ?_ }
      · simp only [mem_append, mem_singleton]
        rintro other (before | rfl)
        · exact made.inUse other before
        · exact made.kept inUsed
      · simp only [mem_append, mem_singleton]
        rintro other (before | rfl) wasUsed
        · obtain ⟨entry', member, old', isMatched', same⟩ := made.origin other before wasUsed
          exact ⟨entry', .inl member, old', isMatched', same⟩
        · exact ⟨entry, .inr rfl, old, isMatched, isID.symm⟩
      · rw [map_append, map_singleton, nodup_append]
        refine ⟨made.distinct, nodup_singleton _, ?_⟩
        rintro a member b single same
        obtain ⟨other, before, rfl⟩ := mem_map.mp member
        rw [mem_singleton] at single
        subst single
        obtain ⟨entry', inEntries, old', isMatched', sameID⟩ :=
          made.origin other before (same ▸ inUsed)
        have sameOld : old'.id = old.id := by rw [sameID, same, isID]
        exact earlier entry' inEntries (matched_injective increasing distinct isMatched'
          isMatched sameOld)
    -- Any other token gets an identifier that nothing has used.
    · have isID : wordID word = id := deriveTextAnnotation_id isMade
      have isFresh : id ∉ state.usedIDs := availableFrom_fresh isFree
      refine
        { words := rel_append made.words
            (.cons (.derived unmatched (fun wasUsed => isFresh (made.kept wasUsed)) isMade) .nil)
          kept := fun id member => mem_append_left _ (made.kept member)
          removed := made.removed
          inUse := ?_, origin := ?_, distinct := ?_ }
      · simp only [mem_append, mem_singleton]
        rintro other (before | rfl)
        · exact .inl (made.inUse other before)
        · exact .inr isID
      · simp only [mem_append, mem_singleton]
        rintro other (before | rfl) wasUsed
        · obtain ⟨entry', member, old', isMatched', same⟩ := made.origin other before wasUsed
          exact ⟨entry', .inl member, old', isMatched', same⟩
        · exact absurd (made.kept (isID ▸ wasUsed)) isFresh
      · rw [map_append, map_singleton, nodup_append]
        refine ⟨made.distinct, nodup_singleton _, ?_⟩
        rintro a member b single same
        obtain ⟨other, before, rfl⟩ := mem_map.mp member
        rw [mem_singleton, isID] at single
        exact isFresh (single ▸ same ▸ made.inUse other before)

end

end

end Scribe.Server
