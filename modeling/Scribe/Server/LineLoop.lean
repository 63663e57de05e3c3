import Scribe.Server.LineSteps
import Scribe.Server.TokenEdits

/-! Runs of the line loop on canonical pages.

The lines that a save reconciles own disjoint words, so no step writes what another
one reads. A run is therefore a list of steps, each determined by the proposed page,
the identifiers in use before it and what is left of the budgets.
-/

set_option autoImplicit false

namespace Scribe.Server

open Iiif List

/-! ## Owned words -/

variable {items : List Json} {lineID : String}

theorem mem_wordsOwnedBy {eligible : Option (List String)} {word : Located} :
    word ∈ wordsOwnedBy items eligible lineID ↔ word ∈ wordsOf items ∧
      lineOwner items eligible word = some lineID := by
  rw [wordsOwnedBy, sortWithinLine, (perm_insertionSort withinLine _).mem_iff, mem_filter,
    decide_eq_true_eq]

theorem wordsOwnedBy_perm (items : List Json) (eligible : Option (List String)) (lineID : String) :
    (wordsOwnedBy items eligible lineID).Perm
      ((wordsOf items).filter fun word => lineOwner items eligible word = some lineID) :=
  perm_insertionSort withinLine _

theorem CanonicalPage.owned_ids_nodup {canvasURI : String} (page : CanonicalPage canvasURI items)
    (eligible : Option (List String)) (lineID : String) :
    ((wordsOwnedBy items eligible lineID).map Located.id).Nodup := by
  rw [((wordsOwnedBy_perm items eligible lineID).map Located.id).nodup_iff]
  exact (filter_sublist.map Located.id).nodup (page.ids_nodup "word")

theorem CanonicalPage.line_not_owned {canvasURI : String} (page : CanonicalPage canvasURI items)
    {line : Located} (isLine : line ∈ linesOf items) (eligible : Option (List String))
    (lineID : String) : line.id ∉ (wordsOwnedBy items eligible lineID).map Located.id := by
  intro isWordID
  obtain ⟨word, member, same⟩ := mem_map.mp isWordID
  exact page.line_id_ne_word_id isLine (mem_wordsOwnedBy.mp member).1 same.symm

theorem CanonicalPage.owner_unique {canvasURI : String} (page : CanonicalPage canvasURI items)
    {eligible : Option (List String)} {other id : String}
    (mine : id ∈ (wordsOwnedBy items eligible lineID).map Located.id)
    (theirs : id ∈ (wordsOwnedBy items eligible other).map Located.id) : lineID = other := by
  obtain ⟨word, isWord, rfl⟩ := mem_map.mp mine
  obtain ⟨word', isWord', same⟩ := mem_map.mp theirs
  obtain ⟨inPage, owner⟩ := mem_wordsOwnedBy.mp isWord
  obtain ⟨inPage', owner'⟩ := mem_wordsOwnedBy.mp isWord'
  rw [page.located_eq_of_id inPage' inPage same, owner] at owner'
  exact Option.some.inj owner'

theorem byID_eq_keyed {words : List Located} (distinct : (words.map Located.id).Nodup) :
    byID words = keyed words :=
  Assoc.ofEntries_of_nodup (by rw [← keyed, keys_keyed]; exact distinct)

theorem mem_proposedOwnedWords {words others : List Located} (distinct : (others.map Located.id).Nodup)
    {word : Located} :
    word ∈ proposedOwnedWords words (keyed others) ↔
      word ∈ others ∧ word.id ∈ words.map Located.id := by
  simp only [proposedOwnedWords, mem_filterMap, mem_map]
  constructor
  · rintro ⟨old, member, found⟩
    obtain ⟨here, same⟩ := get_keyed_eq_some found
    exact ⟨here, old, member, same.symm⟩
  · rintro ⟨here, old, member, same⟩
    refine ⟨old, member, ?_⟩
    rw [same]
    exact get_keyed distinct here

theorem proposedOwnedWords_ids_sublist (words others : List Located) :
    ((proposedOwnedWords words (keyed others)).map Located.id).Sublist (words.map Located.id) := by
  induction words with
  | nil => exact .slnil
  | cons word rest ih =>
    cases found : Assoc.get (keyed others) word.id with
    | none =>
      simp only [proposedOwnedWords, filterMap_cons, found, map_cons] at ih ⊢
      exact ih.cons _
    | some other =>
      obtain ⟨_, same⟩ := get_keyed_eq_some found
      simp only [proposedOwnedWords, filterMap_cons, found, map_cons, same] at ih ⊢
      exact ih.cons_cons _

/-! ## Decisions -/

theorem decideLine_eq_rescale {baseLine proposedLine : Located}
    {baseWords proposedWords : List Located} :
    decideLine baseLine proposedLine baseWords proposedWords = .rescale ↔
      baseLine.text = proposedLine.text ∧ baseWords ≠ [] ∧
      wordIdentityTextSequence baseWords = wordIdentityTextSequence proposedWords ∧
      baseLine.box ≠ proposedLine.box ∧ sameWordsIncludingGeometry baseWords proposedWords = true ∧
      unionMatchesLine proposedWords proposedLine = false := by
  unfold decideLine sameBox
  split_ifs <;> grind

theorem decideLine_eq_tokenEdit {baseLine proposedLine : Located}
    {baseWords proposedWords : List Located} :
    decideLine baseLine proposedLine baseWords proposedWords = .tokenEdit ↔
      baseLine.text ≠ proposedLine.text ∧ baseWords ≠ [] ∧
      sameWordIDMembership baseWords proposedWords = true := by
  unfold decideLine
  split_ifs <;> grind

theorem sameWordsIncludingGeometry_iff {base proposed : List Located}
    (distinct : (base.map Located.id).Nodup) : sameWordsIncludingGeometry base proposed = true ↔
      base.length = proposed.length ∧ ∀ word ∈ proposed, ∃ old ∈ base,
        old.id = word.id ∧ old.text = word.text ∧ old.box = word.box := by
  simp only [sameWordsIncludingGeometry, byID_eq_keyed distinct, Bool.and_eq_true, decide_eq_true_eq,
    all_eq_true, sameBox]
  refine and_congr_right fun _ => forall_congr' fun word => forall_congr' fun _ => ?_
  constructor
  · intro found
    split at found
    · rename_i old isOld
      obtain ⟨member, same⟩ := get_keyed_eq_some isOld
      simp only [Bool.and_eq_true, decide_eq_true_eq] at found
      exact ⟨old, member, same, found⟩
    · cases found
  · rintro ⟨old, member, same, text, box⟩
    rw [← same, get_keyed distinct member]
    simp [text, box]

/-! ## What steps read and write -/

theorem rescale_owned {view : LineView} (distinct : (view.baseWords.map Located.id).Nodup)
    (decided : view.decision = .rescale) {word : Located} (member : word ∈ view.proposedWords) :
    word.id ∈ view.baseWords.map Located.id := by
  obtain ⟨_, _, _, _, same, _⟩ := decideLine_eq_rescale.mp decided
  obtain ⟨old, isOld, sameID, _⟩ := ((sameWordsIncludingGeometry_iff distinct).mp same).2 word member
  exact sameID ▸ mem_map_of_mem isOld

structure IsSave (canvasURI : String) (base proposed : List Json) (input : ReconcileInput) : Prop where
  pageBase : CanonicalPage canvasURI base
  pageProposed : CanonicalPage canvasURI proposed
  index : input.index = pageIndex base proposed
  owned : input.baseWordsByLine = wordsOwnedBy base none
  count : input.proposedCount = proposed.length
  fresh : ∀ lineID, ∀ word ∈ input.newWords lineID, word ∈ wordsOf proposed ∧
    word.id ∉ (wordsOf base).map Located.id

def IsExisting (base proposed : List Json) (lineID : String) : Prop :=
  lineID ∈ (linesOf base).map Located.id ∧ lineID ∈ (linesOf proposed).map Located.id

/-- The words of the proposed page that belong to a line: its own old ones and its new ones. -/
def ReconcileInput.wordsRead (input : ReconcileInput) (proposed : List Json) (lineID : String) :
    List Located :=
  proposedOwnedWords (input.baseWordsByLine lineID) (keyed (wordsOf proposed)) ++ input.newWords lineID

theorem refresh_of_mem {granularity : String} {located : Located}
    (member : located ∈ locatedOf items granularity) : located.refresh items = located := by
  obtain ⟨⟨item, place, same⟩, _⟩ := mem_locatedOf.mp member
  simp_all [Located.refresh, annotationAt]

theorem refresh_congr {others : List Json} {located : Located}
    (same : items[located.index]? = others[located.index]?) :
    located.refresh items = located.refresh others := by
  simp only [Located.refresh, annotationAt_congr same]

section
variable {canvasURI : String} {base proposed : List Json} {input : ReconcileInput}
  (save : IsSave canvasURI base proposed input)
include save

theorem IsSave.lookup_line (existing : IsExisting base proposed lineID) :
    lookup input.index.proposedLines lineID ∈ linesOf proposed ∧
      (lookup input.index.proposedLines lineID).id = lineID := by
  obtain ⟨line, member, rfl⟩ := mem_map.mp existing.2
  have found : lookup (pageIndex base proposed).proposedLines line.id = line :=
    lookup_keyed (save.pageProposed.ids_nodup "line") member
  rw [save.index, found]
  exact ⟨member, rfl⟩

theorem IsSave.lookup_base (existing : IsExisting base proposed lineID) :
    lookup input.index.baseLines lineID ∈ linesOf base ∧
      (lookup input.index.baseLines lineID).id = lineID := by
  obtain ⟨line, member, rfl⟩ := mem_map.mp existing.1
  have found : lookup (pageIndex base proposed).baseLines line.id = line :=
    lookup_keyed (save.pageBase.ids_nodup "line") member
  rw [save.index, found]
  exact ⟨member, rfl⟩

theorem IsSave.mem_wordsRead {word : Located} (member : word ∈ input.wordsRead proposed lineID) :
    word ∈ wordsOf proposed ∧ (word.id ∈ (wordsOwnedBy base none lineID).map Located.id ∨
      word.id ∉ (wordsOf base).map Located.id) := by
  have distinct : ((wordsOf proposed).map Located.id).Nodup := save.pageProposed.ids_nodup "word"
  rw [ReconcileInput.wordsRead, save.owned, mem_append, mem_proposedOwnedWords distinct] at member
  rcases member with ⟨here, owned⟩ | new
  · exact ⟨here, .inl owned⟩
  · exact ⟨(save.fresh lineID word new).1, .inr (save.fresh lineID word new).2⟩

theorem IsSave.view_eq (existing : IsExisting base proposed lineID) :
    input.view proposed lineID =
      { baseLine := lookup input.index.baseLines lineID
        proposedLine := lookup input.index.proposedLines lineID
        baseWords := wordsOwnedBy base none lineID
        proposedWords := sortWithinLine (input.wordsRead proposed lineID) } := by
  have words : (input.wordsRead proposed lineID).map (Located.refresh proposed) =
      input.wordsRead proposed lineID := by
    conv_rhs => rw [← map_id (input.wordsRead proposed lineID)]
    apply map_congr_left
    intro word member
    exact refresh_of_mem (save.mem_wordsRead member).1
  have indexed : input.index.proposedWords = keyed (wordsOf proposed) := by rw [save.index]; rfl
  unfold ReconcileInput.view ReconcileInput.ownedProposedWords
  rw [refresh_of_mem (save.lookup_line existing).1, indexed]
  congr 1
  · rw [save.owned]
  · exact congrArg sortWithinLine words

theorem IsSave.view_congr (sameLine : items[(lookup input.index.proposedLines lineID).index]? =
      proposed[(lookup input.index.proposedLines lineID).index]?)
    (sameWords : ∀ word ∈ input.wordsRead proposed lineID,
      items[word.index]? = proposed[word.index]?) :
    input.view items lineID = input.view proposed lineID := by
  have indexed : input.index.proposedWords = keyed (wordsOf proposed) := by rw [save.index]; rfl
  unfold ReconcileInput.view ReconcileInput.ownedProposedWords
  rw [refresh_congr sameLine, indexed]
  congr 2
  apply map_congr_left
  intro word member
  exact refresh_congr (sameWords word member)

theorem IsSave.writes_of (existing : IsExisting base proposed lineID) {i : Nat}
    (touched : i ∈ Assoc.keys ((input.view proposed lineID).writes input)) :
    i = (lookup input.index.proposedLines lineID).index ∨
      ∃ word ∈ wordsOf proposed, word.index = i ∧
        word.id ∈ (wordsOwnedBy base none lineID).map Located.id := by
  have distinct : ((input.view proposed lineID).baseWords.map Located.id).Nodup := by
    rw [save.view_eq existing]
    exact save.pageBase.owned_ids_nodup none lineID
  unfold LineView.writes at touched
  rw [Assoc.keys, map_cons, mem_cons] at touched
  rcases touched with isLine | isWord
  · exact .inl isLine
  · split at isWord
    · rename_i decided
      refine .inr ?_
      obtain ⟨pair, isPair, rfl⟩ := mem_map.mp isWord
      obtain ⟨word, member, atI⟩ := mem_map.mp (of_mem_zip isPair).1
      have owned := rescale_owned distinct decided member
      simp only [save.view_eq existing] at member owned
      have read : word ∈ input.wordsRead proposed lineID :=
        (perm_insertionSort withinLine _).mem_iff.mp member
      exact ⟨word, (save.mem_wordsRead read).1, atI, owned⟩
    · simp at isWord

theorem IsSave.indices_nodup {words : List Located} (inside : ∀ word ∈ words, word ∈ wordsOf proposed)
    (distinct : (words.map Located.id).Nodup) : (words.map Located.index).Nodup := by
  apply List.Nodup.map_on _ distinct.of_map
  intro a memberA b memberB same
  exact save.pageProposed.located_eq_of_index (inside a memberA) (inside b memberB) same

theorem IsSave.rescale_places (existing : IsExisting base proposed lineID)
    (decided : (input.view proposed lineID).decision = .rescale) :
    ((input.view proposed lineID).proposedLine.index ::
      (input.view proposed lineID).proposedWords.map Located.index).Nodup := by
  have distinct : ((input.view proposed lineID).baseWords.map Located.id).Nodup := by
    rw [save.view_eq existing]
    exact save.pageBase.owned_ids_nodup none lineID
  have owned := fun word => @rescale_owned _ distinct decided word
  simp only [save.view_eq existing] at owned ⊢
  have perm : (sortWithinLine (input.wordsRead proposed lineID)).Perm
      (input.wordsRead proposed lineID) :=
    perm_insertionSort withinLine _
  have noNew : input.newWords lineID = [] := by
    apply eq_nil_iff_forall_not_mem.mpr
    intro word new
    obtain ⟨old, isOld, same⟩ :=
      mem_map.mp (owned word (perm.mem_iff.mpr (mem_append_right _ new)))
    exact (save.fresh lineID word new).2 (same ▸ mem_map_of_mem (mem_wordsOwnedBy.mp isOld).1)
  have ids : ((input.wordsRead proposed lineID).map Located.id).Nodup := by
    rw [ReconcileInput.wordsRead, noNew, append_nil, save.owned]
    exact (proposedOwnedWords_ids_sublist _ _).nodup (save.pageBase.owned_ids_nodup none lineID)
  refine nodup_cons.mpr ⟨fun isWord => ?_, ?_⟩
  · obtain ⟨word, member, same⟩ := mem_map.mp isWord
    exact save.pageProposed.line_ne_word (save.lookup_line existing).1
      (save.mem_wordsRead (perm.mem_iff.mp member)).1 same.symm
  · rw [(perm.map Located.index).nodup_iff]
    exact save.indices_nodup (fun word member => (save.mem_wordsRead member).1) ids

theorem IsSave.writes_nodup (existing : IsExisting base proposed lineID) :
    (Assoc.keys ((input.view proposed lineID).writes input)).Nodup := by
  unfold LineView.writes
  rw [Assoc.keys, map_cons]
  split
  · rename_i decided
    have places := save.rescale_places existing decided
    exact ((Patch.keys_zip_sublist _ _).cons_cons _).nodup places
  · simp

/-- No step writes what the step of another line reads. -/
theorem IsSave.footprints_disjoint {other : String} (existing : IsExisting base proposed lineID)
    (otherExisting : IsExisting base proposed other) (apart : lineID ≠ other) {i : Nat}
    (touched : i ∈ Assoc.keys ((input.view proposed other).writes input)) :
    i ≠ (lookup input.index.proposedLines lineID).index ∧ ∀ word ∈ input.wordsRead proposed lineID,
      word.index ≠ i := by
  have page := save.pageProposed
  obtain ⟨isLine, isID⟩ := save.lookup_line existing
  obtain ⟨isOther, isOtherID⟩ := save.lookup_line otherExisting
  rcases save.writes_of otherExisting touched with rfl | ⟨written, isWord, rfl, owned⟩
  · refine ⟨fun same => apart ?_, fun word read same => ?_⟩
    · rw [← isID, ← isOtherID, page.located_eq_of_index isOther isLine same]
    · exact page.line_ne_word isOther (save.mem_wordsRead read).1 same.symm
  · refine ⟨fun same => page.line_ne_word isLine isWord same.symm, fun word read same => ?_⟩
    obtain ⟨here, whose⟩ := save.mem_wordsRead read
    have one := page.located_eq_of_index here isWord same
    subst one
    rcases whose with mine | new
    · exact apart (save.pageBase.owner_unique mine owned)
    · obtain ⟨old, isOld, sameID⟩ := mem_map.mp owned
      exact new (sameID ▸ mem_map_of_mem (mem_wordsOwnedBy.mp isOld).1)

theorem IsSave.all_writes_nodup {lineIDs : List String} (distinct : lineIDs.Nodup)
    (existing : ∀ lineID ∈ lineIDs, IsExisting base proposed lineID) :
    (Assoc.keys (lineIDs.flatMap fun lineID => (input.view proposed lineID).writes input)).Nodup := by
  rw [Assoc.keys, map_flatMap, nodup_flatMap]
  refine ⟨fun lineID member => save.writes_nodup (existing lineID member), ?_⟩
  refine distinct.imp_of_mem ?_
  intro a b memberA memberB apart i touchedA touchedB
  have existingA := existing a memberA
  have existingB := existing b memberB
  obtain ⟨notLine, notWord⟩ := save.footprints_disjoint existingA existingB apart touchedB
  rcases save.writes_of existingA touchedA with isLine | ⟨word, isWord, rfl, owned⟩
  · exact notLine isLine
  · refine notWord word (mem_append_left _ ?_) rfl
    have distinctWords : ((wordsOf proposed).map Located.id).Nodup :=
      save.pageProposed.ids_nodup "word"
    rw [mem_proposedOwnedWords distinctWords, save.owned]
    exact ⟨isWord, owned⟩

theorem IsSave.unchanged {done : List String}
    (doneExisting : ∀ other ∈ done, IsExisting base proposed other)
    (existing : IsExisting base proposed lineID) (absent : lineID ∉ done) :
    (Patch.apply proposed (done.flatMap fun other => (input.view proposed other).writes input))[
        (lookup input.index.proposedLines lineID).index]? =
      proposed[(lookup input.index.proposedLines lineID).index]? ∧
    ∀ word ∈ input.wordsRead proposed lineID,
      (Patch.apply proposed (done.flatMap fun other =>
        (input.view proposed other).writes input))[word.index]? =
        proposed[word.index]? := by
  have apart : ∀ i ∈ Assoc.keys (done.flatMap fun other => (input.view proposed other).writes input),
      i ≠ (lookup input.index.proposedLines lineID).index ∧
        ∀ word ∈ input.wordsRead proposed lineID, word.index ≠ i := by
    intro i touched
    rw [Assoc.keys, map_flatMap, mem_flatMap] at touched
    obtain ⟨other, isDone, touched⟩ := touched
    exact save.footprints_disjoint existing (doneExisting other isDone)
      (fun same => absent (same ▸ isDone)) touched
  constructor
  · exact Patch.getElem?_apply_of_not_mem _ fun touched => (apart _ touched).1 rfl
  · intro word read
    exact Patch.getElem?_apply_of_not_mem _ fun touched => (apart _ touched).2 word read rfl

theorem IsSave.known (existing : IsExisting base proposed lineID)
    (sameWords : ∀ word ∈ input.wordsRead proposed lineID, items[word.index]? = proposed[word.index]?)
    {word : Located} (member : word ∈ (input.view proposed lineID).baseWords) :
    Assoc.get (input.refreshedWords items) word.id =
      Assoc.get (keyed (input.view proposed lineID).proposedWords) word.id := by
  have indexed : input.index.proposedWords = keyed (wordsOf proposed) := by rw [save.index]; rfl
  have distinctWords : ((wordsOf proposed).map Located.id).Nodup := save.pageProposed.ids_nodup "word"
  have perm : (sortWithinLine (input.wordsRead proposed lineID)).Perm
      (input.wordsRead proposed lineID) :=
    perm_insertionSort withinLine _
  simp only [save.view_eq existing] at member ⊢
  rw [ReconcileInput.refreshedWords, indexed, get_map_value (Located.refresh items)]
  cases found : Assoc.get (keyed (wordsOf proposed)) word.id with
  | none =>
    rw [Assoc.get_eq_none_iff, keys_keyed] at found
    refine (get_keyed_eq_none fun present => found ?_).symm
    obtain ⟨other, isRead, same⟩ := mem_map.mp present
    exact same ▸ mem_map_of_mem (save.mem_wordsRead (perm.mem_iff.mp isRead)).1
  | some now =>
    obtain ⟨isNow, same⟩ := get_keyed_eq_some found
    have read : now ∈ input.wordsRead proposed lineID := by
      refine mem_append_left _ ?_
      rw [mem_proposedOwnedWords distinctWords, save.owned]
      exact ⟨isNow, same ▸ mem_map_of_mem member⟩
    have current : now.refresh items = now := by
      rw [refresh_congr (sameWords now read), refresh_of_mem isNow]
    rw [Option.map_some, current, ← same]
    refine (get_keyed_of_unique (perm.mem_iff.mpr read) ?_).symm
    intro other isRead sameID
    exact save.pageProposed.located_eq_of_id (save.mem_wordsRead (perm.mem_iff.mp isRead)).1 isNow
      sameID

/-- In a run every step is the one its line has on the proposed page. -/
theorem IsSave.step_iff {done : List String} {state next : ReconcileState}
    (doneExisting : ∀ other ∈ done, IsExisting base proposed other)
    (existing : IsExisting base proposed lineID) (absent : lineID ∉ done)
    (items : state.items = Patch.apply proposed (done.flatMap fun other =>
      (input.view proposed other).writes input)) :
    reconcileLine input state lineID = .ok next ↔
      LineStep input lineID (input.view proposed lineID) state next := by
  obtain ⟨sameLine, sameWords⟩ := save.unchanged doneExisting existing absent
  rw [← items] at sameLine sameWords
  apply reconcileLine_ok_iff (save.view_congr sameLine sameWords) (save.rescale_places existing)
  intro word member
  refine save.known existing ?_ member
  intro read isRead
  have apart : (input.view proposed lineID).placedLine.index ≠ read.index := by
    rw [LineView.placedLine_index, save.view_eq existing]
    exact save.pageProposed.line_ne_word (save.lookup_line existing).1 (save.mem_wordsRead isRead).1
  rw [writeAt, getElem?_set_ne apart, sameWords read isRead]

end

/-! ## Runs -/

/-- Successive steps of lines as they were proposed. -/
inductive LineRun (input : ReconcileInput) (view : String → LineView) :
    ReconcileState → List String → ReconcileState → Prop where
  | nil (state : ReconcileState) : LineRun input view state [] state
  | cons {state middle final : ReconcileState} {lineID : String} {rest : List String}
      (first : LineStep input lineID (view lineID) state middle)
        (later : LineRun input view middle rest final) :
      LineRun input view state (lineID :: rest) final

theorem LineStep.items_eq {input : ReconcileInput} {view : LineView} {state next : ReconcileState}
    (step : LineStep input lineID view state next) :
    next.items = Patch.apply state.items (view.writes input) := by
  cases step <;> rfl

theorem IsSave.run_iff {canvasURI : String} {base proposed : List Json} {input : ReconcileInput}
    (save : IsSave canvasURI base proposed input) {lineIDs : List String}
    {start final : ReconcileState} (distinct : lineIDs.Nodup)
    (existing : ∀ lineID ∈ lineIDs, IsExisting base proposed lineID) (items : start.items = proposed) :
    lineIDs.foldlM (reconcileLine input) start = .ok final ↔
      LineRun input (input.view proposed) start lineIDs final := by
  -- What is left of the loop reads the page with the writes of the lines before.
  suffices general : ∀ rest done state, lineIDs = done ++ rest →
      state.items = Patch.apply proposed (done.flatMap fun other =>
        (input.view proposed other).writes input) →
      (rest.foldlM (reconcileLine input) state = .ok final ↔
        LineRun input (input.view proposed) state rest final) from general lineIDs [] start rfl items
  intro rest
  induction rest with
  | nil =>
    intro done state _ _
    rw [foldlM_nil, Attempt.pure_ok_iff]
    constructor
    · rintro rfl
      exact .nil _
    · intro run
      cases run
      rfl
  | cons lineID rest ih =>
    intro done state split items
    have here : lineID ∈ lineIDs := by simp [split]
    have before : ∀ other ∈ done, IsExisting base proposed other := fun other member =>
      existing other (by simp [split, member])
    have absent : lineID ∉ done := by
      intro member
      rw [split, nodup_append] at distinct
      exact distinct.2.2 lineID member lineID mem_cons_self rfl
    have next : ∀ middle, LineStep input lineID (input.view proposed lineID) state middle →
        (rest.foldlM (reconcileLine input) middle = .ok final ↔
          LineRun input (input.view proposed) middle rest final) := by
      intro middle step
      apply ih (done ++ [lineID]) middle (by simp [split])
      rw [step.items_eq, items, ← Patch.apply_append, flatMap_append, flatMap_singleton]
    simp only [foldlM_cons, Attempt.bind_ok_iff,
      save.step_iff before (existing lineID here) absent items]
    constructor
    · rintro ⟨middle, step, ended⟩
      exact .cons step ((next middle step).mp ended)
    · intro run
      cases run with
      | cons step later => exact ⟨_, step, (next _ step).mpr later⟩

section
variable {input : ReconcileInput} {view : String → LineView} {start final : ReconcileState}
  {lineIDs : List String}

/-- The rule for runs: what holds at the start and is kept by every step holds at the end. -/
theorem LineRun.invariant (run : LineRun input view start lineIDs final)
    (holds : List String → ReconcileState → Prop) (begins : holds [] start)
    (keeps : ∀ done lineID rest state next, lineIDs = done ++ lineID :: rest → holds done state →
      LineStep input lineID (view lineID) state next → holds (done ++ [lineID]) next) :
    holds lineIDs final := by
  suffices general : ∀ rest state, LineRun input view state rest final → ∀ done,
      lineIDs = done ++ rest →
      holds done state → holds lineIDs final from general lineIDs start run [] rfl begins
  clear run
  intro rest state run
  induction run with
  | nil state =>
    intro done split here
    simpa [split] using here
  | cons step _ ih =>
    intro done split here
    exact ih (done ++ [_]) (by simp [split]) (keeps done _ _ _ _ split here step)

structure LineEdited (input : ReconcileInput) (view : LineView) (used : List String)
    (words : List Object) : Prop where
  fits : input.proposedCount + view.tokens.length ≤ maxAnnotationsPerPage + view.baseWords.length
  wide : view.tokens = [] ∨ view.tokens.length ≤ view.proposedLine.box.x2 - view.proposedLine.box.x1
  made : ∃ found progress cells rest,
    longestCommonTokenMatches (view.tokenEdit input).baseTokens view.tokens cells = .ok (found, rest) ∧
    TokensMade (view.tokenEdit input) found used view.tokens.zipIdx progress ∧
    progress.generated = words

/-- What a run has done when it has gone through some lines. -/
structure RunMade (input : ReconcileInput) (view : String → LineView) (start : ReconcileState)
    (done : List String) (state : ReconcileState) : Prop where
  items : state.items = Patch.apply start.items (done.flatMap fun lineID => (view lineID).writes input)
  kept : start.usedIDs ⊆ state.usedIDs
  removed : ∀ id, id ∈ state.removeWordIDs ↔ id ∈ start.removeWordIDs ∨
    ∃ lineID ∈ done, (view lineID).decision = .tokenEdit ∧ id ∈ (view lineID).baseWords.map Located.id
  edited : ∀ lineID ∈ done, (view lineID).decision = .tokenEdit → ∃ used words, start.usedIDs ⊆ used ∧
    LineEdited input (view lineID) used words ∧ Assoc.get state.generatedByLine lineID = some words
  others : ∀ lineID, ¬ (lineID ∈ done ∧ (view lineID).decision = .tokenEdit) →
    Assoc.get state.generatedByLine lineID = none
  inUse : ∀ lineID words, Assoc.get state.generatedByLine lineID = some words →
    ∀ word ∈ words, wordID word ∈ state.usedIDs
  origin : ∀ lineID words, Assoc.get state.generatedByLine lineID = some words →
    ∀ word ∈ words, wordID word ∈ start.usedIDs → wordID word ∈ (view lineID).baseWords.map Located.id
  distinct : ∀ lineID words, Assoc.get state.generatedByLine lineID = some words →
    (words.map wordID).Nodup
  apart : ∀ lineID other words others, Assoc.get state.generatedByLine lineID = some words →
    Assoc.get state.generatedByLine other = some others → lineID ≠ other →
    ∀ word ∈ words, ∀ otherWord ∈ others, wordID word ≠ wordID otherWord

/-- What a run needs to know of its lines: a line's committed words are in use, and
they are no other line's. -/
structure RunReady (view : String → LineView) (start : ReconcileState)
    (lineIDs : List String) : Prop where
  lines : lineIDs.Nodup
  none : start.generatedByLine = []
  words : ∀ lineID ∈ lineIDs, ((view lineID).baseWords.map Located.id).Nodup
  known : ∀ lineID ∈ lineIDs, (view lineID).decision = .tokenEdit →
    (view lineID).baseWords.map Located.id ⊆ start.usedIDs
  owners : ∀ lineID ∈ lineIDs, ∀ other ∈ lineIDs, lineID ≠ other →
    ∀ id ∈ (view lineID).baseWords.map Located.id, id ∉ (view other).baseWords.map Located.id

theorem LineRun.made (run : LineRun input view start lineIDs final)
    (ready : RunReady view start lineIDs) : RunMade input view start lineIDs final := by
  refine run.invariant (fun done state => RunMade input view start done state) ?_ ?_
  · have empty := ready.none
    exact
      { items := rfl, kept := List.Subset.refl _, removed := by simp, edited := by simp
        others := by simp [empty], inUse := by simp [empty], origin := by simp [empty]
        distinct := by simp [empty], apart := by simp [empty] }
  · intro done lineID rest state next split made step
    have here : lineID ∈ lineIDs := by simp [split]
    have earlier : ∀ other ∈ done, other ∈ lineIDs := fun other member => by simp [split, member]
    have absent : lineID ∉ done := by
      intro member
      have distinct := ready.lines
      rw [split, nodup_append] at distinct
      exact distinct.2.2 lineID member lineID mem_cons_self rfl
    have items : next.items =
        Patch.apply start.items ((done ++ [lineID]).flatMap fun lineID =>
            (view lineID).writes input) := by
      rw [step.items_eq, made.items, ← Patch.apply_append, flatMap_append, flatMap_singleton]
    cases step with
    -- A line without a token edit generates and removes nothing.
    | settle decided _ =>
      have notEdited := decided.2
      exact
        { items, kept := made.kept, inUse := made.inUse, origin := made.origin,
          distinct := made.distinct
          apart := made.apart
          removed := by
            intro id
            rw [made.removed]
            simp only [mem_append, mem_singleton, or_and_right, exists_or, exists_eq_left, notEdited,
              false_and, or_false]
          edited := by
            intro other member isEdit
            rcases mem_append.mp member with before | last
            · exact made.edited other before isEdit
            · exact absurd (mem_singleton.mp last ▸ isEdit) notEdited
          others := by
            intro other notBoth
            exact made.others other fun both => notBoth ⟨mem_append_left _ both.1, both.2⟩ }
    | @edit bytes cells progress decided fits estimated edited =>
      obtain ⟨wide, found, aligned, folded⟩ := reconcileLineTokens_ok_iff.mp edited
      have tokens : TokensMade (view lineID |>.tokenEdit input) found state.usedIDs
          (view lineID).tokens.zipIdx progress :=
        tokensMade (longestCommonTokenMatches_valid aligned).1 (ready.words lineID here)
          (fun id member => made.kept (ready.known lineID here decided member)) folded
      have wide' : (view lineID).tokens = [] ∨
          (view lineID).tokens.length ≤
              (view lineID).proposedLine.box.x2 - (view lineID).proposedLine.box.x1 := by
        rw [← (view lineID).placedLine_box]
        exact wide
      -- A generated word whose identifier was taken before is a committed word of this line.
      have retained : ∀ word ∈ progress.generated, wordID word ∈ state.usedIDs →
          wordID word ∈ (view lineID).baseWords.map Located.id := by
        intro word member wasUsed
        obtain ⟨_, _, old, isMatched, same⟩ := tokens.origin word member wasUsed
        obtain ⟨_, _, _, place⟩ := matched_eq_some isMatched
        exact same ▸ mem_map_of_mem (mem_of_getElem? place)
      have lookups : ∀ other words,
          Assoc.get (Assoc.set state.generatedByLine lineID progress.generated) other =
          some words → (other = lineID ∧ words = progress.generated) ∨
            (other ≠ lineID ∧ Assoc.get state.generatedByLine other = some words) := by
        intro other words got
        rw [Assoc.get_set] at got
        split at got
        · rename_i same
          exact .inl ⟨same.symm, (Option.some.inj got).symm⟩
        · rename_i differs
          exact .inr ⟨fun same => differs same.symm, got⟩
      -- A word of an earlier line is in use by now, and if it was in use all along it is that line's.
      have separate : ∀ other words, other ≠ lineID →
          Assoc.get state.generatedByLine other = some words →
          ∀ word ∈ words, ∀ new ∈ progress.generated, wordID word ≠ wordID new := by
        intro other words differs got word member new isNew same
        have used := made.inUse other words got word member
        have mine := retained new isNew (same ▸ used)
        have isDone : other ∈ done := by
          by_contra notDone
          rw [made.others other fun both => notDone both.1] at got
          cases got
        have theirs :=
          made.origin other words got word member (same ▸ ready.known lineID here decided mine)
        exact ready.owners lineID here other (earlier other isDone) (Ne.symm differs) _ mine
          (same ▸ theirs)
      exact
        { items
          kept := fun id member => tokens.kept (made.kept member)
          removed := by
            intro id
            have cut := @tokens.removed id
            simp only [mem_append, made.removed, mem_singleton, or_and_right, exists_or,
              exists_eq_left, decided, true_and]
            constructor
            · rintro ((old | mine) | gone)
              · exact or_assoc.mp (.inl old)
              · exact .inr (.inr mine)
              · exact .inr (.inr (cut gone))
            · rintro (old | earlier | mine)
              · exact .inl (.inl (.inl old))
              · exact .inl (.inl (.inr earlier))
              · exact .inl (.inr mine)
          edited := by
            intro other member isEdit
            rcases mem_append.mp member with before | last
            · obtain ⟨used, words, sub, isEdited, got⟩ := made.edited other before isEdit
              have differs : lineID ≠ other := fun same => absent (same ▸ before)
              exact ⟨used, words, sub, isEdited, by rw [Assoc.get_set_of_ne _ _ differs]; exact got⟩
            · obtain rfl := mem_singleton.mp last
              exact ⟨state.usedIDs, progress.generated, made.kept,
                ⟨fits, wide', found, progress, _, _, aligned, tokens, rfl⟩, Assoc.get_set_self _ _ _⟩
          others := by
            intro other notBoth
            have differs : lineID ≠ other := by
              rintro rfl
              exact notBoth ⟨by simp, decided⟩
            rw [Assoc.get_set_of_ne _ _ differs]
            exact made.others other fun both => notBoth ⟨mem_append_left _ both.1, both.2⟩
          inUse := by
            intro other words got word member
            rcases lookups other words got with ⟨rfl, rfl⟩ | ⟨_, got⟩
            · exact tokens.inUse word member
            · exact tokens.kept (made.inUse other words got word member)
          origin := by
            intro other words got word member wasUsed
            rcases lookups other words got with ⟨rfl, rfl⟩ | ⟨_, got⟩
            · exact retained word member (made.kept wasUsed)
            · exact made.origin other words got word member wasUsed
          distinct := by
            intro other words got
            rcases lookups other words got with ⟨rfl, rfl⟩ | ⟨_, got⟩
            · exact tokens.distinct
            · exact made.distinct other words got
          apart := by
            intro first second words others gotFirst gotSecond differs
            rcases lookups first words gotFirst with ⟨isFirst, rfl⟩ | ⟨notFirst, hadFirst⟩
            · rcases lookups second others gotSecond with ⟨isSecond, rfl⟩ | ⟨notSecond, hadSecond⟩
              · exact absurd (isFirst.trans isSecond.symm) differs
              · intro word member other isOther same
                exact separate second others notSecond hadSecond other isOther word member same.symm
            · rcases lookups second others gotSecond with ⟨_, rfl⟩ | ⟨_, hadSecond⟩
              · exact separate first words notFirst hadFirst
              · exact made.apart first second words others hadFirst hadSecond differs }

end

end Scribe.Server
