import Scribe.Server.Page
import Scribe.Server.ReadBack

/-! A save on canonical pages, stage by stage.

On canonical pages the indexes are the located annotations themselves, so a save
succeeds exactly when ownership can be settled, every existing line can be
reconciled and the result is not too long. What one line's step does is said once
here, by the decision taken for it.
-/

set_option autoImplicit false

namespace Scribe.Server

open Iiif List Attempt

/-! ## Located annotations by identifier -/

def keyed (located : List Located) : List (String × Located) := located.map fun one => (one.id, one)

@[simp] theorem keys_keyed (located : List Located) :
    Assoc.keys (keyed located) = located.map Located.id := by
  simp [Assoc.keys, keyed, Function.comp_def]

section
variable {located : List Located} (distinct : (located.map Located.id).Nodup)
include distinct

theorem get_keyed {one : Located} (member : one ∈ located) :
    Assoc.get (keyed located) one.id = some one := by
  apply Assoc.get_of_mem (by rw [keys_keyed]; exact distinct)
  exact mem_map.mpr ⟨one, member, rfl⟩

theorem lookup_keyed {one : Located} (member : one ∈ located) :
    lookup (keyed located) one.id = one := by
  rw [lookup, get_keyed distinct member, Option.getD_some]

end

theorem get_keyed_of_unique {located : List Located} {one : Located} (member : one ∈ located)
    (unique : ∀ other ∈ located, other.id = one.id → other = one) :
    Assoc.get (keyed located) one.id = some one := by
  cases found : Assoc.get (keyed located) one.id with
  | none =>
    rw [Assoc.get_eq_none_iff, keys_keyed] at found
    exact absurd (mem_map_of_mem member) found
  | some other =>
    have pair := Assoc.mem_of_get found
    obtain ⟨entry, isEntry, same⟩ := mem_map.mp pair
    obtain ⟨sameID, rfl⟩ := Prod.mk.inj same
    rw [unique entry isEntry sameID]

theorem get_keyed_eq_none {located : List Located} {id : String}
    (absent : id ∉ located.map Located.id) : Assoc.get (keyed located) id = none := by
  rw [Assoc.get_eq_none_iff, keys_keyed]
  exact absent

theorem get_keyed_eq_some {located : List Located} {id : String} {one : Located}
    (found : Assoc.get (keyed located) id = some one) : one ∈ located ∧ one.id = id := by
  obtain ⟨other, member, same⟩ := mem_map.mp (Assoc.mem_of_get found)
  obtain ⟨rfl, rfl⟩ := Prod.mk.inj same
  exact ⟨member, rfl⟩

/-! ## The stages -/

def pageIndex (base proposed : List Json) : PageIndex where
  baseLines := keyed (linesOf base)
  baseWords := keyed (wordsOf base)
  proposedLines := keyed (linesOf proposed)
  proposedWords := keyed (wordsOf proposed)

def saveInput (ext : Externals) (identity : PageIdentity) (pageID : String) (revision : Nat)
    (base proposed : List Json) (newWords : String → List Located) : ReconcileInput where
  ext := ext
  identity := identity
  pageID := pageID
  expectedRevision := revision
  index := pageIndex base proposed
  proposedCount := proposed.length
  baseWordsByLine := wordsOwnedBy base none
  newWords := newWords

def saveStart (proposed : List Json) (removed : List String) : ReconcileState where
  items := proposed
  usedIDs := initialUsedIDs proposed
  lcsCellsRemaining := maxWordReconciliationLCSCells
  estimatedPageBytes := (Json.arr proposed).encodedBytes + 256
  removeWordIDs := removed
  generatedByLine := []

def newLineAssignments (base proposed : List Json) : List (String × List PositionedWord) :=
  assignSpatialWordsToLines proposed (some (pageIndex base proposed).newLineIDs)

section
variable {canvasURI : String} {base proposed : List Json}
  (pageBase : CanonicalPage canvasURI base) (pageProposed : CanonicalPage canvasURI proposed)
include pageBase pageProposed

theorem indexPages_eq : indexPages base proposed = .ok (pageIndex base proposed) := by
  unfold indexPages
  rw [pageBase.reconciliationAnnotations_eq (.inl rfl),
    pageBase.reconciliationAnnotations_eq (.inr rfl), pageProposed.reconciliationAnnotations_eq
      (.inl rfl), pageProposed.reconciliationAnnotations_eq (.inr rfl)]
  rfl

/-- A save succeeds stage by stage. -/
theorem reconcileEditedLineWords_ok_iff {ext : Externals} {order : IterationOrder}
    {identity : PageIdentity} {revision : Nat} {result : List Json} :
    reconcileEditedLineWords ext order base proposed identity revision = .ok result ↔
      ∃ pageID claims removed newWords state,
        annotationPageID ext identity.publicBaseURL identity.itemImageID = .ok pageID ∧
        newLineClaims order (pageIndex base proposed) (newLineAssignments base proposed) = .ok claims ∧
        removedLineWords order (pageIndex base proposed) (wordsOwnedBy base none)
          (baseWordOwner order (assignSpatialWordsToLines base none))
    (newLineAssignments base proposed) claims =
            .ok removed ∧
        newWordsByExistingLine ext order pageID (pageIndex base proposed) claims proposed =
          .ok newWords ∧
        (order.visit .existingLines (pageIndex base proposed).existingLineIDs).foldlM
          (reconcileLine (saveInput ext identity pageID revision base proposed newWords))
    (saveStart proposed removed) =
            .ok state ∧
        assemble (keyed (linesOf base)) state = .ok result := by
  have owned : wordsOfLine (assignSpatialWordsToLines base none) = wordsOwnedBy base none := by
    funext lineID
    exact pageBase.wordsOfLine_eq none lineID
  unfold reconcileEditedLineWords prepare
  simp only [bind_ok_iff, pure_ok_iff, indexPages_eq pageBase pageProposed, Except.ok.injEq,
    exists_eq_left', owned]
  constructor
  · rintro ⟨_, ⟨pageID, named, claims, claimed, removed, cascaded, newWords, joined, rfl⟩, state,
      looped, assembled⟩
    exact ⟨pageID, claims, removed, newWords, state, named, claimed, cascaded, joined,
      looped, assembled⟩
  · rintro ⟨pageID, claims, removed, newWords, state, named, claimed, cascaded, joined,
      looped, assembled⟩
    exact ⟨_, ⟨pageID, named, claims, claimed, removed, cascaded, newWords, joined, rfl⟩, state,
      looped, assembled⟩

end

/-! ## Pages with the same lines and words -/

section
variable {base proposed : List Json}

theorem visit_nil (order : IterationOrder) (loop : MapLoop) : order.visit loop [] = [] :=
  (order.perm loop []).eq_nil

theorem removedLineWords_none {order : IterationOrder} {index : PageIndex}
    {words : String → List Located} {owner : String → Option String}
    {assigned : List (String × List PositionedWord)} {claims : NewLineClaims}
    {removed : List String} (noneGone : index.removedLineIDs = [])
    (done : removedLineWords order index words owner assigned claims = .ok removed) :
    removed = [] := by
  unfold removedLineWords at done
  simp only [noneGone, visit_nil, filter_nil, find?_nil, flatMap_nil] at done
  exact (pure_ok_iff.mp done).symm

end

/-! ## New words of existing lines -/

def structuralWordAt (ext : Externals) (pageID : String) (index : PageIndex) (claims : NewLineClaims)
    (lineID : String) (wordIndex : Nat) : Option (String × Located) :=
  (structuralWordID ext pageID lineID wordIndex).toOption.bind fun wordID =>
    (Assoc.get index.proposedWords wordID).bind fun word =>
      if isUnclaimedNewWord index claims wordID then some (wordID, word) else none

def tokenCount (index : PageIndex) (lineID : String) : Nat :=
  (Go.fields (lookup index.proposedLines lineID).text).length

def structuralWordsOf (ext : Externals) (pageID : String) (index : PageIndex) (claims : NewLineClaims)
    (lineID : String) : List (String × Located) :=
  (List.range (tokenCount index lineID)).filterMap (structuralWordAt ext pageID index claims lineID)

/-- The new words of a line: those derived from it, then those that lie in it and are derived from
no line. -/
def newWordsOf (ext : Externals) (pageID : String) (index : PageIndex) (claims : NewLineClaims)
    (proposed : List Json) (lineID : String) : List Located :=
  (if lineID ∈ index.existingLineIDs then
      (structuralWordsOf ext pageID index claims lineID).map (·.2)
    else []) ++
    (wordsOfLine (assignSpatialWordsToLines proposed (some index.existingLineIDs)) lineID).filter
      fun word => isUnclaimedNewWord index claims word.id &&
        word.id ∉ index.existingLineIDs.flatMap fun other =>
          (structuralWordsOf ext pageID index claims other).map (·.1)

section
variable {ext : Externals} {order : IterationOrder} {pageID : String} {index : PageIndex}
  {claims : NewLineClaims}

/-- What the loop of `structuralWords` does at one position. -/
def structuralWordRead (ext : Externals) (pageID : String) (index : PageIndex) (claims : NewLineClaims)
    (lineID : String) (wordIndex : Nat) : Except String (Option (String × Located)) :=
  match structuralWordID ext pageID lineID wordIndex with
  | .ok wordID =>
      match Assoc.get index.proposedWords wordID with
      | some word =>
          if isUnclaimedNewWord index claims wordID then pure (some (wordID, word)) else pure none
      | none => pure none
  | .error message =>
      throw ("derive structural word ownership for line " ++ Go.quote lineID ++ ": " ++ message)

theorem structuralWordRead_ok_iff {lineID : String} {i : Nat} {result : Option (String × Located)} :
    structuralWordRead ext pageID index claims lineID i = .ok result ↔
      (∃ id, structuralWordID ext pageID lineID i = .ok id) ∧
        result = structuralWordAt ext pageID index claims lineID i := by
  rw [structuralWordRead]
  cases derived : structuralWordID ext pageID lineID i with
  | error message => simp [throw, throwThe, MonadExceptOf.throw]
  | ok id =>
    cases present : Assoc.get index.proposedWords id with
    | none =>
      have absent : structuralWordAt ext pageID index claims lineID i = none := by
        simp [structuralWordAt, derived, present, Except.toOption]
      simp [absent, present, pure_ok_iff, eq_comm (a := result)]
    | some word =>
      have found : structuralWordAt ext pageID index claims lineID i =
          if isUnclaimedNewWord index claims id then some (id, word) else none := by
        simp [structuralWordAt, derived, present, Except.toOption]
      cases new : isUnclaimedNewWord index claims id <;>
        simp [found, present, new, pure_ok_iff, eq_comm (a := result)]

theorem structuralWords_ok_iff {lineID : String} {found : List (String × Located)} :
    structuralWords ext pageID index claims lineID = .ok found ↔
      (∀ i < tokenCount index lineID, ∃ id, structuralWordID ext pageID lineID i = .ok id) ∧
        found = structuralWordsOf ext pageID index claims lineID := by
  unfold structuralWords
  simp only [bind_ok_iff, pure_ok_iff]
  constructor
  · rintro ⟨results, mapped, rfl⟩
    have pairs := (mapM_ok_iff.mp mapped).imp fun i result made => structuralWordRead_ok_iff.mp made
    have total : ∀ i < tokenCount index lineID, ∃ id,
        structuralWordID ext pageID lineID i = .ok id := by
      intro i inside
      have bound : i < results.length := by
        have same := pairs.length_eq
        rw [length_range] at same
        exact same ▸ inside
      have here := (List.forall₂_iff_get.mp pairs).2 i (by rw [length_range]; exact inside) bound
      simpa using here.1
    have areThese : results =
        (List.range (tokenCount index lineID)).map
            (structuralWordAt ext pageID index claims lineID) := by
      have same := pairs.imp fun _ _ both => both.2
      rw [← List.forall₂_eq_eq_eq, List.forall₂_map_right_iff]
      exact same.flip
    refine ⟨total, ?_⟩
    rw [areThese, structuralWordsOf, filterMap_map]
    rfl
  · rintro ⟨total, rfl⟩
    refine ⟨(List.range (tokenCount index lineID)).map
      (structuralWordAt ext pageID index claims lineID), ?_, ?_⟩
    · apply mapM_eq_map
      intro i inside
      exact structuralWordRead_ok_iff.mpr ⟨total i (mem_range.mp inside), rfl⟩
    · rw [structuralWordsOf, filterMap_map]
      rfl

theorem get_pairs {α β : Type} [DecidableEq α] (keys : List α) (value : α → β) (key : α) :
    Assoc.get (keys.map fun k => (k, value k)) key = if key ∈ keys then some (value key)
      else none := by
  induction keys with
  | nil => rfl
  | cons first rest ih =>
    by_cases same : first = key
    · simp [Assoc.get, same]
    · simp [Assoc.get, same, ih, Ne.symm same]

/-- The new words of the existing lines do not depend on the order in which the lines are
visited. -/
theorem newWordsByExistingLine_ok_iff {proposed : List Json} {newWords : String → List Located} :
    newWordsByExistingLine ext order pageID index claims proposed = .ok newWords ↔
      (∀ lineID ∈ index.existingLineIDs, ∀ i < tokenCount index lineID,
        ∃ id, structuralWordID ext pageID lineID i = .ok id) ∧
      newWords = newWordsOf ext pageID index claims proposed := by
  have visits := order.perm .structuralOwners index.existingLineIDs
  have each : ∀ lineID result, (structuralWords ext pageID index claims lineID >>= fun words =>
      (pure (lineID, words) : Except String _)) = .ok result ↔
      (∀ i < tokenCount index lineID, ∃ id, structuralWordID ext pageID lineID i = .ok id) ∧
        result = (lineID, structuralWordsOf ext pageID index claims lineID) := by
    intro lineID result
    simp only [bind_ok_iff, pure_ok_iff, structuralWords_ok_iff]
    constructor
    · rintro ⟨_, ⟨total, rfl⟩, rfl⟩
      exact ⟨total, rfl⟩
    · rintro ⟨total, rfl⟩
      exact ⟨_, ⟨total, rfl⟩, rfl⟩
  -- The traversal in the order of the map succeeds exactly when every line does.
  have mapped : ∀ results, (order.visit .structuralOwners index.existingLineIDs).mapM (fun lineID =>
      structuralWords ext pageID index claims lineID >>= fun words =>
        (pure (lineID, words) : Except String _)) =
        .ok results ↔
      (∀ lineID ∈ index.existingLineIDs, ∀ i < tokenCount index lineID,
        ∃ id, structuralWordID ext pageID lineID i = .ok id) ∧
      results = (order.visit .structuralOwners index.existingLineIDs).map fun lineID =>
        (lineID, structuralWordsOf ext pageID index claims lineID) := by
    intro results
    constructor
    · intro done
      have pairs := (mapM_ok_iff.mp done).imp fun lineID result made => (each lineID result).mp made
      constructor
      · intro lineID member
        obtain ⟨i, bound, rfl⟩ := getElem_of_mem (visits.mem_iff.mpr member)
        have inside : i < results.length := pairs.length_eq ▸ bound
        simpa using ((List.forall₂_iff_get.mp pairs).2 i bound inside).1
      · rw [← List.forall₂_eq_eq_eq, List.forall₂_map_right_iff]
        exact (pairs.imp fun _ _ both => both.2).flip
    · rintro ⟨total, rfl⟩
      apply mapM_eq_map
      intro lineID member
      exact (each lineID _).mpr ⟨total lineID (visits.mem_iff.mp member), rfl⟩
  -- Looking a line up afterwards forgets the order.
  have assembled : (fun lineID =>
      ((Assoc.get ((order.visit .structuralOwners index.existingLineIDs).map fun lineID =>
        (lineID, structuralWordsOf ext pageID index claims lineID)) lineID).getD []).map (·.2) ++
      (wordsOfLine (assignSpatialWordsToLines proposed (some index.existingLineIDs)) lineID).filter
        fun word => isUnclaimedNewWord index claims word.id &&
          word.id ∉ ((order.visit .structuralOwners index.existingLineIDs).map fun lineID =>
            (lineID, structuralWordsOf ext pageID index claims lineID)).flatMap fun entry =>
              entry.2.map (·.1)) =
      newWordsOf ext pageID index claims proposed := by
    funext lineID
    unfold newWordsOf
    rw [get_pairs]
    congr 1
    · by_cases member : lineID ∈ index.existingLineIDs
      · simp [member, visits.mem_iff]
      · simp [member, visits.mem_iff]
    · apply filter_congr
      intro word _
      congr 2
      simp only [flatMap_map, mem_flatMap, visits.mem_iff]
  unfold newWordsByExistingLine
  simp only [bind_ok_iff, pure_ok_iff]
  constructor
  · rintro ⟨results, made, rfl⟩
    obtain ⟨total, rfl⟩ := (mapped results).mp made
    exact ⟨total, assembled⟩
  · rintro ⟨total, rfl⟩
    exact ⟨_, (mapped _).mpr ⟨total, rfl⟩, assembled⟩

end

end Scribe.Server
