import Scribe.Server.LineLoop

/-! New lines and removed lines.

A removed line takes its committed words off the page unless new lines replace it
completely: every one of its words lies in a new line whose text spells its words,
and those new lines take no word of a line that stays. Every word lies in at most
one new line, so the visiting orders of the source do not matter here.
-/

set_option autoImplicit false

namespace Scribe.Server

open Iiif List

def coveredWords (base proposed : List Json) (lineID : String) : List Located :=
  wordsOwnedBy proposed (some (pageIndex base proposed).newLineIDs) lineID

def newLineSynchronized (base proposed : List Json) (lineID : String) : Bool :=
  lineAndWordsSynchronized (lookup (keyed (linesOf proposed)) lineID)
    (coveredWords base proposed lineID)

def IsRemovedLine (base proposed : List Json) (lineID : String) : Prop :=
  lineID ∈ (linesOf base).map Located.id ∧ lineID ∉ (linesOf proposed).map Located.id

/-- Every committed word of a line lies in a synchronized new line. -/
def TakenOver (base proposed : List Json) (lineID : String) : Prop :=
  wordsOwnedBy base none lineID ≠ [] ∧ ∀ word ∈ wordsOwnedBy base none lineID,
    ∃ newLine, word.id ∈ (coveredWords base proposed newLine).map Located.id ∧
      newLineSynchronized base proposed newLine = true

/-- A complete replacement: the line is taken over, by new lines that take committed words
only from removed lines which are taken over as well. -/
def Replaced (base proposed : List Json) (lineID : String) : Prop :=
  TakenOver base proposed lineID ∧ ∀ word ∈ wordsOwnedBy base none lineID, ∀ newLine,
    word.id ∈ (coveredWords base proposed newLine).map Located.id →
    ∀ other ∈ coveredWords base proposed newLine, ∀ owner,
      other.id ∈ (wordsOwnedBy base none owner).map Located.id →
      IsRemovedLine base proposed owner ∧ TakenOver base proposed owner

theorem mem_removedLineIDs {base proposed : List Json} {lineID : String} :
    lineID ∈ (pageIndex base proposed).removedLineIDs ↔ IsRemovedLine base proposed lineID := by
  simp [PageIndex.removedLineIDs, pageIndex, IsRemovedLine]

theorem lineOwner_eligible {items : List Json} {ids : List String} {word : Located} {lineID : String}
    (owner : lineOwner items (some ids) word = some lineID) : lineID ∈ ids := by
  obtain ⟨line, found, rfl⟩ := Option.map_eq_some_iff.mp owner
  have allowed := (mem_filter.mp (mem_of_find?_eq_some found)).2
  simpa using allowed

theorem covered_by_new {base proposed : List Json} {id lineID : String}
    (covered : id ∈ (coveredWords base proposed lineID).map Located.id) :
    lineID ∈ (pageIndex base proposed).newLineIDs := by
  obtain ⟨word, member, rfl⟩ := mem_map.mp covered
  exact lineOwner_eligible (mem_wordsOwnedBy.mp member).2

theorem find?_unique {α : Type} {values : List α} {holds : α → Bool} {value : α}
    (unique : ∀ a ∈ values, ∀ b ∈ values, holds a = true → holds b = true → a = b) :
    values.find? holds = some value ↔ value ∈ values ∧ holds value = true := by
  constructor
  · intro found
    exact ⟨mem_of_find?_eq_some found, find?_some found⟩
  · rintro ⟨member, isHeld⟩
    cases found : values.find? holds with
    | none => exact absurd isHeld (find?_eq_none.mp found value member)
    | some other =>
      exact congrArg some (unique other (mem_of_find?_eq_some found) value member
        (find?_some found) isHeld)

section
variable {canvasURI : String} {base proposed : List Json} {order : IterationOrder}
  {claims : NewLineClaims} (pageBase : CanonicalPage canvasURI base)
  (pageProposed : CanonicalPage canvasURI proposed)
include pageProposed

theorem wordsOfLine_newLineAssignments (lineID : String) :
    wordsOfLine (newLineAssignments base proposed) lineID = coveredWords base proposed lineID :=
  pageProposed.wordsOfLine_eq _ lineID

structure ClaimsSettled (base proposed : List Json) (claims : NewLineClaims) : Prop where
  synchronized : ∀ lineID, claims.synchronized lineID = newLineSynchronized base proposed lineID
  lineForWord : ∀ id lineID, claims.lineForWord id = some lineID ↔
    id ∈ (coveredWords base proposed lineID).map Located.id
  claimed : ∀ id, id ∈ claims.claimed ↔ id ∉ (wordsOf base).map Located.id ∧
    ∃ lineID, id ∈ (coveredWords base proposed lineID).map Located.id ∧
      newLineSynchronized base proposed lineID = true

def NewLinesSpell (base proposed : List Json) : Prop :=
  ∀ lineID, ∀ word ∈ coveredWords base proposed lineID, word.id ∉ (wordsOf base).map Located.id →
    newLineSynchronized base proposed lineID = true

theorem newLineClaims_ok (done : newLineClaims order (pageIndex base proposed)
      (newLineAssignments base proposed) =
    .ok claims) : NewLinesSpell base proposed ∧ ClaimsSettled base proposed claims := by
  have visits := order.perm .newLines (pageIndex base proposed).newLineIDs
  unfold newLineClaims at done
  simp only [wordsOfLine_newLineAssignments pageProposed] at done
  split at done
  · exact absurd done Attempt.throw_ne_ok
  · rename_i noneBad
    have made := Attempt.pure_ok_iff.mp done
    subst made
    rw [find?_eq_none] at noneBad
    refine ⟨?_, ⟨fun _ => rfl, ?_, ?_⟩⟩
    · intro lineID word member isNew
      have isLine := covered_by_new (mem_map_of_mem member)
      have checked := noneBad lineID (visits.mem_iff.mpr isLine)
      by_contra unsynchronized
      refine checked (decide_eq_true ⟨?_,
        by simpa [newLineSynchronized, pageIndex] using unsynchronized⟩)
      refine ne_nil_of_mem (a := word.id) (mem_filter.mpr ⟨mem_map_of_mem member, ?_⟩)
      simpa [pageIndex] using isNew
    · intro id lineID
      rw [find?_unique]
      · simp only [mem_reverse, visits.mem_iff, decide_eq_true_eq]
        exact ⟨And.right, fun covered => ⟨covered_by_new covered, covered⟩⟩
      · intro a _ b _ inA inB
        exact pageProposed.owner_unique (of_decide_eq_true inA) (of_decide_eq_true inB)
    · intro id
      have known : Assoc.keys (pageIndex base proposed).baseWords = (wordsOf base).map Located.id :=
        keys_keyed _
      simp only [mem_flatMap, mem_filter, visits.mem_iff, known, decide_eq_true_eq]
      constructor
      · rintro ⟨lineID, ⟨_, spelled⟩, covered, isNew⟩
        exact ⟨isNew, lineID, covered, spelled⟩
      · rintro ⟨isNew, lineID, covered, spelled⟩
        exact ⟨lineID, ⟨covered_by_new covered, spelled⟩, covered, isNew⟩

end

/-! ## Removed lines -/

section
variable (index : PageIndex) (baseWordsByLine : String → List Located) (owner : String → Option String)
  (newAssigned : List (String × List PositionedWord)) (claims : NewLineClaims)

/-- The source's first test of a removed line: all its words lie in synchronized new lines. -/
def basicReplacement (lineID : String) : Bool :=
  baseWordsByLine lineID ≠ [] && (baseWordsByLine lineID).all fun word =>
    word.id ∈ Assoc.keys index.proposedWords &&
      match claims.lineForWord word.id with
      | some newOwner => claims.synchronized newOwner
      | none => false

/-- The source's test of a new line: it takes no committed word of a line that stays. -/
def allowedReplacementLine (lineID : String) : Bool :=
  lineID ∈ index.newLineIDs && claims.synchronized lineID &&
    (wordsOfLine newAssigned lineID).all fun word =>
      match owner word.id with
      | some owner => owner ∈ index.removedLineIDs &&
        basicReplacement index baseWordsByLine claims owner
      | none => true

def protectedRemovedLine (lineID : String) : Bool :=
  basicReplacement index baseWordsByLine claims lineID && (baseWordsByLine lineID).all fun word =>
    match claims.lineForWord word.id with
    | some newOwner => allowedReplacementLine index baseWordsByLine owner newAssigned claims newOwner
    | none => false

theorem removedLineWords_eq (order : IterationOrder) :
    removedLineWords order index baseWordsByLine owner newAssigned claims =
      let cascading := (order.visit .removedLines index.removedLineIDs).filter fun lineID =>
        !protectedRemovedLine index baseWordsByLine owner newAssigned claims lineID
      match cascading.find? fun lineID =>
          (baseWordsByLine lineID).any fun word => (claims.lineForWord word.id).isSome with
      | some lineID =>
          throw ("removed line " ++ Go.quote lineID ++
            " has an incomplete or conflicting structural word replacement")
      | none => pure (cascading.flatMap fun lineID => (baseWordsByLine lineID).map (·.id)) := rfl

end

/-- No word of a line that goes without a replacement lies in a new line. -/
def RemovalsSettled (base proposed : List Json) : Prop :=
  ∀ lineID, IsRemovedLine base proposed lineID → ¬ Replaced base proposed lineID →
    ∀ word ∈ wordsOwnedBy base none lineID, ∀ newLine,
      word.id ∉ (coveredWords base proposed newLine).map Located.id

section
variable {canvasURI : String} {base proposed : List Json} {order : IterationOrder}
  {claims : NewLineClaims}

theorem CanonicalPage.baseWordOwner_eq_some (page : CanonicalPage canvasURI base)
    {id lineID : String} :
    baseWordOwner order (assignSpatialWordsToLines base none) id = some lineID ↔
      id ∈ (wordsOwnedBy base none lineID).map Located.id := by
  have visits := order.perm .committedOwners (Assoc.keys (assignSpatialWordsToLines base none))
  unfold baseWordOwner
  simp only [page.wordsOfLine_eq]
  rw [find?_unique]
  · simp only [mem_reverse, visits.mem_iff, decide_eq_true_eq]
    refine ⟨And.right, fun owned => ⟨?_, owned⟩⟩
    by_contra absent
    have empty : wordsOfLine (assignSpatialWordsToLines base none) lineID = [] := by
      rw [wordsOfLine, (Assoc.get_eq_none_iff _ _).mpr absent]
      rfl
    rw [← page.wordsOfLine_eq, empty] at owned
    cases owned
  · intro a _ b _ inA inB
    exact page.owner_unique (of_decide_eq_true inA) (of_decide_eq_true inB)

variable (pageBase : CanonicalPage canvasURI base) (pageProposed : CanonicalPage canvasURI proposed)
  (settled : ClaimsSettled base proposed claims)
include pageProposed settled

omit pageProposed in
theorem basicReplacement_iff {lineID : String} :
    basicReplacement (pageIndex base proposed) (wordsOwnedBy base none) claims lineID = true ↔
      TakenOver base proposed lineID := by
  have each :
      ∀ word : Located, ((word.id ∈ Assoc.keys (pageIndex base proposed).proposedWords : Bool) &&
      match claims.lineForWord word.id with
      | some newOwner => claims.synchronized newOwner
      | none => false) = true ↔
      ∃ newLine, word.id ∈ (coveredWords base proposed newLine).map Located.id ∧
        newLineSynchronized base proposed newLine = true := by
    intro word
    cases claimed : claims.lineForWord word.id with
    | none =>
      have nowhere : ∀ newLine, word.id ∉ (coveredWords base proposed newLine).map Located.id := by
        intro newLine covered
        rw [(settled.lineForWord word.id newLine).mpr covered] at claimed
        cases claimed
      simp only [Bool.and_false, Bool.false_eq_true, false_iff, not_exists, not_and]
      exact fun newLine covered => absurd covered (nowhere newLine)
    | some newLine =>
      have covered := (settled.lineForWord word.id newLine).mp claimed
      obtain ⟨found, isFound, sameID⟩ := mem_map.mp covered
      have present : word.id ∈ Assoc.keys (pageIndex base proposed).proposedWords := by
        rw [pageIndex, keys_keyed, ← sameID]
        exact mem_map_of_mem (mem_wordsOwnedBy.mp isFound).1
      simp only [present, decide_true, Bool.true_and, settled.synchronized]
      constructor
      · exact fun spelled => ⟨newLine, covered, spelled⟩
      · rintro ⟨other, isCovered, spelled⟩
        rw [← settled.lineForWord, claimed] at isCovered
        exact Option.some.inj isCovered ▸ spelled
  unfold basicReplacement TakenOver
  rw [Bool.and_eq_true, decide_eq_true_eq, all_eq_true]
  exact and_congr_right fun _ => forall_congr' fun word => forall_congr' fun _ => each word

include pageBase

/-- The source's test of a removed line is the complete replacement. -/
theorem protectedRemovedLine_iff {lineID : String} :
    protectedRemovedLine (pageIndex base proposed) (wordsOwnedBy base none)
        (baseWordOwner order (assignSpatialWordsToLines base none))
        (newLineAssignments base proposed) claims lineID = true ↔
      Replaced base proposed lineID := by
  -- What the source asks of the new line that took a word over.
  have allowed : ∀ newLine, newLine ∈ (pageIndex base proposed).newLineIDs →
      newLineSynchronized base proposed newLine = true →
      (allowedReplacementLine (pageIndex base proposed) (wordsOwnedBy base none)
        (baseWordOwner order (assignSpatialWordsToLines base none))
          (newLineAssignments base proposed) claims newLine =
          true ↔ ∀ other ∈ coveredWords base proposed newLine, ∀ owner,
            other.id ∈ (wordsOwnedBy base none owner).map Located.id →
            IsRemovedLine base proposed owner ∧ TakenOver base proposed owner) := by
    intro newLine isNew spelled
    unfold allowedReplacementLine
    rw [Bool.and_eq_true, Bool.and_eq_true, decide_eq_true_eq, settled.synchronized, all_eq_true,
      wordsOfLine_newLineAssignments pageProposed]
    simp only [isNew, spelled, true_and]
    refine forall_congr' fun other => forall_congr' fun _ => ?_
    cases owned : baseWordOwner order (assignSpatialWordsToLines base none) other.id with
    | none =>
      simp only [true_iff]
      intro owner isOwned
      rw [pageBase.baseWordOwner_eq_some.mpr isOwned] at owned
      cases owned
    | some owner =>
      simp only [Bool.and_eq_true, decide_eq_true_eq, mem_removedLineIDs, basicReplacement_iff settled]
      constructor
      · intro both other' isOwned
        rw [pageBase.baseWordOwner_eq_some.mpr isOwned] at owned
        exact Option.some.inj owned ▸ both
      · exact fun all => all owner (pageBase.baseWordOwner_eq_some.mp owned)
  unfold protectedRemovedLine Replaced
  rw [Bool.and_eq_true, all_eq_true, basicReplacement_iff settled]
  refine and_congr_right fun taken => forall_congr' fun word => forall_congr' fun member => ?_
  obtain ⟨newLine, covered, spelled⟩ := taken.2 word member
  rw [(settled.lineForWord word.id newLine).mpr covered]
  simp only [allowed newLine (covered_by_new covered) spelled]
  constructor
  · intro all other isCovered
    obtain rfl := pageProposed.owner_unique covered isCovered
    exact all
  · exact fun all => all newLine covered

theorem removedLineWords_ok {removed : List String}
    (done : removedLineWords order (pageIndex base proposed) (wordsOwnedBy base none)
      (baseWordOwner order (assignSpatialWordsToLines base none))
      (newLineAssignments base proposed) claims = .ok removed) :
    RemovalsSettled base proposed ∧ ∀ id, id ∈ removed ↔ ∃ lineID, IsRemovedLine base proposed lineID ∧
      ¬ Replaced base proposed lineID ∧ id ∈ (wordsOwnedBy base none lineID).map Located.id := by
  have visits := order.perm .removedLines (pageIndex base proposed).removedLineIDs
  rw [removedLineWords_eq] at done
  simp only at done
  split at done
  · exact absurd done Attempt.throw_ne_ok
  · rename_i noneBad
    rw [find?_eq_none] at noneBad
    rw [← Attempt.pure_ok_iff.mp done]
    have cascading : ∀ lineID,
        lineID ∈ (order.visit .removedLines (pageIndex base proposed).removedLineIDs).filter
        (fun lineID => !protectedRemovedLine (pageIndex base proposed) (wordsOwnedBy base none)
          (baseWordOwner order (assignSpatialWordsToLines base none))
            (newLineAssignments base proposed) claims lineID) ↔
        IsRemovedLine base proposed lineID ∧ ¬ Replaced base proposed lineID := by
      intro lineID
      rw [mem_filter, visits.mem_iff, mem_removedLineIDs, Bool.not_eq_true', ← Bool.not_eq_true,
        protectedRemovedLine_iff pageBase pageProposed settled]
    constructor
    · intro lineID isRemoved notReplaced word member newLine covered
      refine noneBad lineID ((cascading lineID).mpr ⟨isRemoved, notReplaced⟩) ?_
      rw [any_eq_true]
      exact ⟨word, member, by rw [(settled.lineForWord word.id newLine).mpr covered]; rfl⟩
    · intro id
      simp only [mem_flatMap, cascading, and_assoc]

end

end Scribe.Server
