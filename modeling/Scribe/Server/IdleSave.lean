import Scribe.Server.TextEdits

/-! Saving a page as it is.

Both sides of an idle save read the same words in the same order, so no line takes
part in a token edit, no text is rewritten and nothing is moved. The page a save
returns is validated once more before it is stored, so saving it again is idle too.
-/

set_option autoImplicit false

namespace Scribe.Server

open Iiif List

theorem preserveCommittedLineOwnershipOrder_self {items : List Json}
    {baseLines : List (String × Located)}
    (committed : ∀ item ∈ items, isLineItem item = true → isCommittedLine baseLines item = true) :
    preserveCommittedLineOwnershipOrder items baseLines = items := by
  have none : ((items.filter isLineItem).filter fun line => !isCommittedLine baseLines line) = [] := by
    rw [filter_filter, filter_eq_nil_iff]
    intro item member
    cases isLine : isLineItem item with
    | false => simp
    | true => simp [committed item member isLine]
  simp [preserveCommittedLineOwnershipOrder, none]

theorem structuralWordID_of_resource {ext : Externals} {pageID : String}
    (resource : ext.resourceURL (Go.trimSpace pageID) false = true) (lineID : String) (i : Nat) :
    ∃ id, structuralWordID ext pageID lineID i = .ok id := by
  have seeded : Go.trimSpace (lineID ++ nul ++ "word" ++ nul ++ Nat.repr (i + 1)) ≠ "" := by
    refine @Text.trim_ne_empty _ _ 'w' ?_ (by decide)
    simp
  unfold structuralWordID annotationID requireResourceURL
  simp only [resource, if_true, seeded, if_false]
  exact ⟨_, rfl⟩

section
variable {canvasURI : String} {items : List Json} (page : CanonicalPage canvasURI items)
include page

theorem CanonicalPage.retexted_self : Retexted items items := by
  refine List.forall₂_same.mpr fun item member => ?_
  have isObject := (page.canonical item member).isObject
  exact ⟨item.toObject, item.toObject, isObject, isObject, fun _ _ => rfl⟩

theorem CanonicalPage.refresh_self {granularity : String} {located : Located}
    (member : located ∈ locatedOf items granularity) : located.refresh items = located := by
  simp [Located.refresh, annotationAt, page.located_item member]

/-- The step of a line changes nothing. -/
theorem CanonicalPage.idle_step {input : ReconcileInput} (save : IsSave canvasURI items items input)
    {lineID : String} (existing : IsExisting items items lineID) {state : ReconcileState}
    (unchanged : state.items = items) :
    LineStep input lineID (input.view items lineID) state state := by
  obtain ⟨line, isLine, rfl⟩ := mem_map.mp (page.retexted_self.existing_iff.mp existing)
  have sameWords : ∀ word ∈ wordsOwnedBy items none line.id,
      word.refresh items = word := fun word member =>
    page.refresh_self (mem_wordsOwnedBy.mp member).1
  obtain ⟨decided, written⟩ := retextView_untouched input (page.refresh_self isLine) sameWords
  rw [save.view_retexted page.retexted_self isLine,
    lineStep_settled_iff (by rw [decided]; decide) (by rw [decided]; decide), decided, written]
  refine ⟨fun rescale => (by cases rescale), ?_⟩
  have current : Patch.apply state.items [(line.index, .obj line.anno)] = state.items := by
    refine Patch.apply_of_current fun write member => ?_
    rw [mem_singleton.mp member, unchanged]
    exact page.located_item isLine
  rw [current]

theorem CanonicalPage.idle_run {input : ReconcileInput} (save : IsSave canvasURI items items input)
    {lineIDs : List String} (existing : ∀ lineID ∈ lineIDs, IsExisting items items lineID)
    {state : ReconcileState} (unchanged : state.items = items) :
    LineRun input (input.view items) state lineIDs state := by
  induction lineIDs with
  | nil => exact .nil state
  | cons lineID rest ih =>
    exact .cons (page.idle_step save (existing lineID mem_cons_self) unchanged)
      (ih fun other later => existing other (mem_cons_of_mem _ later))

theorem CanonicalPage.idle_assemble : assemble (keyed (linesOf items))
    (saveStart items []) = .ok items := by
  have whole : items.flatMap (assembleItem (saveStart items [])) = items := by
    conv_rhs => rw [← flatMap_singleton' items]
    refine flatMap_congr fun item _ => ?_
    simp only [assembleItem, saveStart, not_mem_nil, false_and, if_false, Assoc.get_nil,
      Option.getD_none, map_nil]
    split <;> rfl
  have ordered : preserveCommittedLineOwnershipOrder items (keyed (linesOf items)) = items := by
    refine preserveCommittedLineOwnershipOrder_self fun item member isLine => ?_
    rw [isLineItem_eq] at isLine
    obtain ⟨i, here⟩ := mem_iff_getElem?.mp member
    obtain ⟨box, parsed⟩ := (page.canonical item member).placed (.inl isLine)
    have located : (⟨item.toObject, i, box⟩ : Located) ∈ linesOf items :=
      mem_locatedOf.mpr ⟨⟨item, here, rfl⟩, isLine, parsed⟩
    rw [isCommittedLine, decide_eq_true_eq, keys_keyed]
    exact mem_map_of_mem located
  unfold assemble
  simp only
  have start : (saveStart items []).items = items := rfl
  rw [start, whole, if_neg (Nat.not_lt.mpr page.bounded), ordered]

theorem CanonicalPage.idle_save {ext : Externals} {identity : PageIdentity} {pageID : String}
    (named : annotationPageID ext identity.publicBaseURL identity.itemImageID = .ok pageID)
    (resource : ext.resourceURL (Go.trimSpace pageID) false = true) (order : IterationOrder)
    (revision : Nat) :
    reconcileEditedLineWords ext order items items identity revision = .ok items := by
  have retexted := page.retexted_self
  have visits := order.perm .existingLines (pageIndex items items).existingLineIDs
  have existing : ∀ lineID ∈ order.visit .existingLines (pageIndex items items).existingLineIDs,
      IsExisting items items lineID :=
        fun lineID member => mem_existingLineIDs.mp (visits.mem_iff.mp member)
  obtain ⟨claims, claimed⟩ : ∃ claims,
      newLineClaims order (pageIndex items items) (newLineAssignments items items) =
      .ok claims := by
    unfold newLineClaims
    simp only [retexted.no_new_lines, visit_nil, find?_nil]
    exact ⟨_, rfl⟩
  have cascaded : removedLineWords order (pageIndex items items) (wordsOwnedBy items none)
      (baseWordOwner order (assignSpatialWordsToLines items none)) (newLineAssignments items items)
          claims = .ok [] := by
    unfold removedLineWords
    simp only [retexted.no_removed_lines, visit_nil, filter_nil, find?_nil, flatMap_nil]
    rfl
  have save :
      IsSave canvasURI items items (lineInput ext identity pageID revision items items claims) :=
    isSave_saveInput page page ext identity pageID revision claims
  exact (reconcileEditedLineWords_ok_iff_run page page).mpr ⟨pageID, claims, [], saveStart items [],
    named, claimed, cascaded, fun lineID _ i _ => structuralWordID_of_resource resource lineID i,
    page.idle_run save existing rfl, page.idle_assemble⟩

end

/-- Saving a page as it is changes nothing, and neither does saving what a save returned. -/
theorem idle_save_identity {canvasURI : String} {ext : Externals} {identity : PageIdentity}
    {pageID : String}
    (named : annotationPageID ext identity.publicBaseURL identity.itemImageID = .ok pageID)
    (resource : ext.resourceURL (Go.trimSpace pageID) false = true) :
    (∀ (order : IterationOrder) (revision : Nat) (items : List Json), CanonicalPage canvasURI items →
      reconcileEditedLineWords ext order items items identity revision = .ok items) ∧
    (∀ (order again : IterationOrder) (revision next : Nat) (base draft result : List Json),
      reconcileEditedLineWords ext order base draft identity revision = .ok result →
        CanonicalPage canvasURI result →
      reconcileEditedLineWords ext again result result identity next = .ok result) :=
  ⟨fun order revision _ page => page.idle_save named resource order revision,
    fun _ again _ next _ _ _ _ page => page.idle_save named resource again next⟩

theorem idle_save_identity_unsynchronized :
    CanonicalPage "https://h/c" (twoWordPage "a b" "x" "y") ∧
    reconcileEditedLineWords plainExternals listedOrder (twoWordPage "a b" "x" "y")
    (twoWordPage "a b" "x" "y")
      plainIdentity 1 = .ok (twoWordPage "a b" "x" "y") := by
  have page : CanonicalPage "https://h/c" (twoWordPage "a b" "x" "y") := by decide +kernel
  have named : annotationPageID plainExternals plainIdentity.publicBaseURL plainIdentity.itemImageID =
      .ok "https://h/item-image-1/canvas/page-1/annotations" := by decide +kernel
  exact ⟨page, (idle_save_identity named rfl).1 listedOrder 1 _ page⟩

end Scribe.Server
