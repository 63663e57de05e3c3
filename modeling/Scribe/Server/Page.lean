import Scribe.Data.Attempt
import Scribe.Server.Reconciliation

/-! Canonical pages.

The server only reconciles pages that passed validation. On such a page the line
and word indexes cannot fail, the two spellings of the granularity test agree and
every annotation is on the one Canvas, so ownership is a search through the lines
for the first box that contains a word's centre.
-/

set_option autoImplicit false

namespace Scribe.Server

open Iiif List

/-- Identifiers are URIs: not empty, without white space and without NUL. -/
structure IsIdentifier (id : String) : Prop where
  isField : Text.IsField Text.unicodeSpace id
  noNul : Char.ofNat 0 ∉ id.toList

def knownLevels : List String := ["page", "block", "paragraph", "line", "word", "glyph"]

def itemID (item : Json) : String := annStringValue item.toObject "id"

/-- What validation establishes of one item. The server's own test trims an identifier before it
reads it, and the normalised page keeps the identifier as it came: that no white space stands around
it is the URI rule of the schema. -/
structure CanonicalItem (canvasURI : String) (item : Json) : Prop where
  isObject : item = .obj item.toObject
  identified : IsIdentifier (itemID item)
  level : Go.trimSpace (annStringValue item.toObject "textGranularity") ∈ "" :: knownLevels
  canvas : extractCanvasURI item.toObject = canvasURI
  placed : isGranularity item.toObject "line" = true ∨ isGranularity item.toObject "word" = true →
    ∃ box, annotationBox item.toObject = .ok box

structure CanonicalPage (canvasURI : String) (items : List Json) : Prop where
  named : canvasURI ≠ ""
  canonical : ∀ item ∈ items, CanonicalItem canvasURI item
  distinct : (items.map itemID).Nodup
  bounded : items.length ≤ maxAnnotationsPerPage

/-! ## The annotations of one granularity -/

def locate? (granularity : String) (item : Json × Nat) : Option Located :=
  if isGranularity item.1.toObject granularity then
    match annotationBox item.1.toObject with
    | .ok box => some ⟨item.1.toObject, item.2, box⟩
    | .error _ => none
  else none

def locatedOf (items : List Json) (granularity : String) : List Located :=
  items.zipIdx.filterMap (locate? granularity)

def linesOf (items : List Json) : List Located := locatedOf items "line"

def wordsOf (items : List Json) : List Located := locatedOf items "word"

theorem locate?_eq_some {granularity : String} {item : Json × Nat} {located : Located} :
    locate? granularity item = some located ↔
      item.1.toObject = located.anno ∧ item.2 = located.index ∧
        isGranularity located.anno granularity = true ∧
        annotationBox located.anno = .ok located.box := by
  obtain ⟨anno, index, box⟩ := located
  simp only [locate?]
  constructor
  · intro found
    split at found
    · rename_i level
      cases parsed : annotationBox item.1.toObject with
      | error message => simp [parsed] at found
      | ok found' =>
        simp only [parsed, Option.some.injEq, Located.mk.injEq] at found
        obtain ⟨rfl, rfl, rfl⟩ := found
        exact ⟨rfl, rfl, level, parsed⟩
    · cases found
  · rintro ⟨rfl, rfl, level, parsed⟩
    simp [level, parsed]

theorem mem_locatedOf {items : List Json} {granularity : String} {located : Located} :
    located ∈ locatedOf items granularity ↔
      (∃ item, items[located.index]? = some item ∧ item.toObject = located.anno) ∧
        isGranularity located.anno granularity = true ∧
        annotationBox located.anno = .ok located.box := by
  simp only [locatedOf, mem_filterMap, locate?_eq_some]
  constructor
  · rintro ⟨⟨item, index⟩, member, same, rfl, level, parsed⟩
    exact ⟨⟨item, mem_zipIdx_iff_getElem?.mp member, same⟩, level, parsed⟩
  · rintro ⟨⟨item, place, same⟩, level, parsed⟩
    exact ⟨(item, located.index), mem_zipIdx_iff_getElem?.mpr place, same, rfl, level, parsed⟩

theorem locatedOf_increasing (items : List Json) (granularity : String) :
    (locatedOf items granularity).Pairwise fun a b => a.index < b.index :=
  zipIdx_filterMap_pairwise (locate? granularity) Located.index
    (fun _ _ found => (locate?_eq_some.mp found).2.1.symm) items

theorem locatedOf_ids_sublist (items : List Json) (granularity : String) :
    ((locatedOf items granularity).map Located.id).Sublist (items.map itemID) := by
  have each : ∀ item : Json × Nat, (locate? granularity item).map Located.id =
      if (locate? granularity item).isSome then some (itemID item.1) else none := by
    intro item
    cases found : locate? granularity item with
    | none => simp
    | some located =>
      have same := (locate?_eq_some.mp found).1
      simp [Located.id, itemID, same]
  have whole : (locatedOf items granularity).map Located.id =
      (items.zipIdx.filter fun item => (locate? granularity item).isSome).map fun item =>
          itemID item.1 := by
    rw [locatedOf, map_filterMap, ← filterMap_eq_map, filterMap_filter]
    apply filterMap_congr
    intro item _
    simpa using each item
  have fsts : items.map itemID = items.zipIdx.map fun item => itemID item.1 := by
    rw [← zipIdx_map_fst 0 items, map_map]
    simp [Function.comp_def]
  rw [whole, fsts]
  exact filter_sublist.map _

/-! ## The two indexes -/

section
variable {canvasURI : String} {items : List Json} (page : CanonicalPage canvasURI items)

section
variable {anno : Object}
  (level : Go.trimSpace (annStringValue anno "textGranularity") ∈ "" :: knownLevels)
include level

/-- On known levels both granularity tests compare the trimmed level. -/
theorem granularity_tests {granularity : String}
    (either : granularity = "line" ∨ granularity = "word") :
    hasLowerGranularity anno granularity = isGranularity anno granularity := by
  simp only [hasLowerGranularity, isGranularity]
  generalize Go.trimSpace (annStringValue anno "textGranularity") = text at level
  simp only [knownLevels, mem_cons, not_mem_nil, or_false] at level
  rcases either with rfl | rfl
  · rcases level with rfl | rfl | rfl | rfl | rfl | rfl | rfl <;> decide
  · rcases level with rfl | rfl | rfl | rfl | rfl | rfl | rfl <;> decide

theorem line_not_word (isLine : isGranularity anno "line" = true) :
    isGranularity anno "word" = false := by
  revert isLine
  simp only [isGranularity]
  generalize Go.trimSpace (annStringValue anno "textGranularity") = text at level
  simp only [knownLevels, mem_cons, not_mem_nil, or_false] at level
  rcases level with rfl | rfl | rfl | rfl | rfl | rfl | rfl <;> decide

end

theorem IsIdentifier.trimSpace {id : String} (identifier : IsIdentifier id) : Go.trimSpace id = id :=
  Text.trim_of_isField identifier.isField

include page

theorem CanonicalPage.ids_nodup (granularity : String) :
    ((locatedOf items granularity).map Located.id).Nodup :=
  (locatedOf_ids_sublist items granularity).nodup page.distinct

theorem CanonicalPage.index_eq_of_id {i j : Nat} {a b : Json} (atI : items[i]? = some a)
    (atJ : items[j]? = some b) (same : itemID a = itemID b) : i = j := by
  have boundI := (List.getElem?_eq_some_iff.mp atI).1
  apply (getElem?_inj (by simpa using boundI) page.distinct).mp
  simp [atI, atJ, same]

section
variable {granularity : String} {located : Located} (member : located ∈ locatedOf items granularity)
include member

theorem CanonicalPage.located_item : items[located.index]? = some (.obj located.anno) := by
  obtain ⟨⟨item, place, same⟩, _⟩ := mem_locatedOf.mp member
  rw [place, (page.canonical item (mem_of_getElem? place)).isObject, same]

theorem CanonicalPage.located_canonical : CanonicalItem canvasURI (.obj located.anno) :=
  page.canonical _ (mem_of_getElem? (page.located_item member))

theorem CanonicalPage.located_identifier : IsIdentifier located.id :=
  (page.located_canonical member).identified

end

section
variable {granularity other : String} {a b : Located} (memberA : a ∈ locatedOf items granularity)
  (memberB : b ∈ locatedOf items other)
include memberA memberB

theorem CanonicalPage.located_eq_of_id (same : a.id = b.id) : a = b := by
  have index := page.index_eq_of_id (page.located_item memberA) (page.located_item memberB) same
  have anno : a.anno = b.anno := by
    have atA := page.located_item memberA
    rw [index, page.located_item memberB] at atA
    simpa using (Option.some.inj atA).symm
  have box : a.box = b.box := by
    have parsedA := (mem_locatedOf.mp memberA).2.2
    rw [anno, (mem_locatedOf.mp memberB).2.2] at parsedA
    exact (Except.ok.inj parsedA).symm
  cases a; cases b
  simp_all

theorem CanonicalPage.located_eq_of_index (same : a.index = b.index) : a = b := by
  apply page.located_eq_of_id memberA memberB
  have atA := page.located_item memberA
  rw [same, page.located_item memberB] at atA
  have anno : b.anno = a.anno := by simpa using atA
  rw [Located.id, Located.id, anno]

end

theorem CanonicalPage.line_ne_word {line word : Located} (isLine : line ∈ linesOf items)
    (isWord : word ∈ wordsOf items) : line.index ≠ word.index := by
  intro same
  have one := page.located_eq_of_index isLine isWord same
  subst one
  have notWord := line_not_word (page.located_canonical isLine).level (mem_locatedOf.mp isLine).2.1
  rw [Json.toObject_obj, (mem_locatedOf.mp isWord).2.1] at notWord
  cases notWord

theorem CanonicalPage.line_id_ne_word_id {line word : Located} (isLine : line ∈ linesOf items)
    (isWord : word ∈ wordsOf items) : line.id ≠ word.id := fun same =>
  page.line_ne_word isLine isWord (congrArg Located.index (page.located_eq_of_id isLine isWord same))

theorem CanonicalPage.reconciliationAnnotations_eq {granularity : String}
    (either : granularity = "line" ∨ granularity = "word") :
    reconciliationAnnotations items granularity =
      .ok ((locatedOf items granularity).map fun located => (located.id, located)) := by
  have each : ∀ item ∈ items.zipIdx, reconciliationEntryOf granularity item =
      .ok ((locate? granularity item).map fun located => (located.id, located)) := by
    rintro ⟨item, index⟩ member
    have canonical := page.canonical item (mem_of_getElem? (mem_zipIdx_iff_getElem?.mp member))
    obtain ⟨anno, rfl⟩ : ∃ anno, item = .obj anno := ⟨_, canonical.isObject⟩
    have identified : IsIdentifier (annStringValue anno "id") := canonical.identified
    have placed := canonical.placed
    simp only [Json.toObject_obj] at placed
    cases level : isGranularity anno granularity with
    | false => simp [reconciliationEntryOf, locate?, level]
    | true =>
      have isLevel : isGranularity anno "line" = true ∨ isGranularity anno "word" = true := by
        rcases either with rfl | rfl
        · exact .inl level
        · exact .inr level
      obtain ⟨box, parsed⟩ := placed isLevel
      simp [reconciliationEntryOf, locate?, level, identified.trimSpace, identified.isField.1,
        parsed, Located.id]
  have keys : Assoc.keys ((locatedOf items granularity).map fun located => (located.id, located)) =
      (locatedOf items granularity).map Located.id := by
    simp [Assoc.keys, Function.comp_def]
  unfold reconciliationAnnotations
  rw [Attempt.mapM_eq_map each]
  simp only [bind, Except.bind, pure, Except.pure, Except.ok.injEq]
  rw [filterMap_map]
  simp only [Function.comp_def, id_eq]
  rw [← map_filterMap]
  exact Assoc.ofEntries_of_nodup (by rw [← locatedOf, keys]; exact page.ids_nodup granularity)

end

/-! ## Ownership on one Canvas -/

def Box.holds (line word : Box) : Bool :=
  line.x1 ≤ word.x1 + (word.x2 - word.x1) / 2 && word.x1 + (word.x2 - word.x1) / 2 ≤ line.x2 &&
    line.y1 ≤ word.y1 + (word.y2 - word.y1) / 2 && word.y1 + (word.y2 - word.y1) / 2 ≤ line.y2

/-- The first eligible line, in item order, whose box holds a word's. -/
def lineOwner (items : List Json) (eligible : Option (List String)) (word : Located) : Option String :=
  (((linesOf items).filter fun line => ∀ ids ∈ eligible, line.id ∈ ids).find?
    (·.box.holds word.box)).map Located.id

def wordsOwnedBy (items : List Json) (eligible : Option (List String)) (lineID : String) :
    List Located :=
  sortWithinLine ((wordsOf items).filter fun word => lineOwner items eligible word = some lineID)

def Located.toSpatialLine (located : Located) : SpatialLine := ⟨located.id, located.box, located.index⟩

def Located.toSpatialWord (located : Located) : SpatialWord where
  word := ⟨located.index, located.box.x1, located.anno⟩
  centerX := located.box.x1 + (located.box.x2 - located.box.x1) / 2
  centerY := located.box.y1 + (located.box.y2 - located.box.y1) / 2

section
variable {canvasURI : String} {items : List Json} (page : CanonicalPage canvasURI items)
include page

theorem CanonicalPage.spatialLines_eq (eligible : Option (List String)) :
    spatialLines items eligible canvasURI =
      ((linesOf items).filter fun line => ∀ ids ∈ eligible, line.id ∈ ids).map
        Located.toSpatialLine := by
  rw [linesOf, locatedOf, ← filterMap_eq_filter, filterMap_filterMap, ← filterMap_eq_map,
    filterMap_filterMap, spatialLines]
  apply filterMap_congr
  rintro ⟨item, index⟩ member
  have canonical := page.canonical item (mem_of_getElem? (mem_zipIdx_iff_getElem?.mp member))
  obtain ⟨anno, rfl⟩ : ∃ anno, item = .obj anno := ⟨_, canonical.isObject⟩
  have levels : hasLowerGranularity anno "line" = isGranularity anno "line" :=
    granularity_tests canonical.level (.inl rfl)
  have onCanvas : extractCanvasURI anno = canvasURI := canonical.canvas
  have named := page.named
  cases parsed : annotationBox anno with
  | error message =>
    cases level : isGranularity anno "line" <;> simp [spatialLine?, spatialItem?, locate?,
      parsed, level]
  | ok box =>
    cases level : isGranularity anno "line" with
    | false => simp [spatialLine?, spatialItem?, locate?, parsed, level, levels, onCanvas, named]
    | true =>
      cases eligible with
      | none =>
        simp [spatialLine?, spatialItem?, locate?, parsed, level, levels, onCanvas, named, Located.id,
          Located.toSpatialLine]
      | some ids =>
        by_cases allowed : annStringValue anno "id" ∈ ids
        · simp [spatialLine?, spatialItem?, locate?, parsed, level, levels, onCanvas,
            named, Located.id, Located.toSpatialLine, allowed]
        · simp [spatialLine?, spatialItem?, locate?, parsed, level, levels, onCanvas, named,
            Located.id, allowed, Option.guard]

theorem CanonicalPage.spatialWords_eq :
    spatialWords items = (wordsOf items).map fun word => (canvasURI, word.toSpatialWord) := by
  rw [wordsOf, locatedOf, ← filterMap_eq_map, filterMap_filterMap, spatialWords]
  apply filterMap_congr
  rintro ⟨item, index⟩ member
  have canonical := page.canonical item (mem_of_getElem? (mem_zipIdx_iff_getElem?.mp member))
  obtain ⟨anno, rfl⟩ : ∃ anno, item = .obj anno := ⟨_, canonical.isObject⟩
  have levels : hasLowerGranularity anno "word" = isGranularity anno "word" :=
    granularity_tests canonical.level (.inr rfl)
  have onCanvas : extractCanvasURI anno = canvasURI := canonical.canvas
  have named := page.named
  cases parsed : annotationBox anno with
  | error message =>
    cases level : isGranularity anno "word" <;> simp [spatialWord?, spatialItem?, locate?,
      parsed, level]
  | ok box =>
    cases level : isGranularity anno "word" with
    | false => simp [spatialWord?, spatialItem?, locate?, parsed, level, levels, onCanvas, named]
    | true =>
      simp [spatialWord?, spatialItem?, locate?, parsed, level, levels, onCanvas, named,
        Located.toSpatialWord]

/-- The words of a line by the sweep are the words whose first holding line it is. -/
theorem CanonicalPage.wordsOfLine_eq (eligible : Option (List String)) (lineID : String) :
    wordsOfLine (assignSpatialWordsToLines items eligible) lineID =
      wordsOwnedBy items eligible lineID := by
  have owner : ∀ word : Located, ownerOf items eligible (canvasURI, word.toSpatialWord) =
      lineOwner items eligible word := by
    intro word
    simp only [ownerOf, lineOwner, page.spatialLines_eq eligible, find?_map, Option.map_map]
    rfl
  have located : ∀ word ∈ wordsOf items, locateWord? word.toSpatialWord.word = some word := by
    intro word member
    have parsed := (mem_locatedOf.mp member).2.2
    simp [locateWord?, Located.toSpatialWord, parsed]
  rw [wordsOfLine_assign, ownedWords, wordsOwnedBy, page.spatialWords_eq, filterMap_map,
    ← filterMap_eq_filter]
  congr 1
  apply filterMap_congr
  intro word member
  simp only [Function.comp_apply, owner, Option.guard]
  by_cases same : lineOwner items eligible word = some lineID
  · simp [same, located word member]
  · simp [same]

end

/-! ## Pages that can be checked -/

theorem isIdentifier_iff {id : String} :
    IsIdentifier id ↔ (id ≠ "" ∧ (id.toList.all fun c => !Text.unicodeSpace c) = true) ∧
      Char.ofNat 0 ∉ id.toList := by
  simp only [all_eq_true, Bool.not_eq_true']
  exact ⟨fun identifier => ⟨identifier.isField, identifier.noNul⟩, fun both => ⟨both.1, both.2⟩⟩

instance (id : String) : Decidable (IsIdentifier id) := decidable_of_iff _ isIdentifier_iff.symm

theorem canonicalItem_iff {canvasURI : String} {item : Json} :
    CanonicalItem canvasURI item ↔ item = .obj item.toObject ∧ IsIdentifier (itemID item) ∧
      Go.trimSpace (annStringValue item.toObject "textGranularity") ∈ "" :: knownLevels ∧
      extractCanvasURI item.toObject = canvasURI ∧
      (isGranularity item.toObject "line" = true ∨ isGranularity item.toObject "word" = true →
        (annotationBox item.toObject).toOption.isSome = true) := by
  have parsed : (annotationBox item.toObject).toOption.isSome = true ↔
      ∃ box, annotationBox item.toObject = .ok box := by
    cases annotationBox item.toObject <;> simp [Except.toOption]
  rw [parsed]
  exact ⟨fun canonical => ⟨canonical.isObject, canonical.identified, canonical.level, canonical.canvas,
    canonical.placed⟩, fun all => ⟨all.1, all.2.1, all.2.2.1, all.2.2.2.1, all.2.2.2.2⟩⟩

instance (canvasURI : String) (item : Json) : Decidable (CanonicalItem canvasURI item) :=
  decidable_of_iff _ canonicalItem_iff.symm

theorem canonicalPage_iff {canvasURI : String} {items : List Json} :
    CanonicalPage canvasURI items ↔ canvasURI ≠ "" ∧ (∀ item ∈ items, CanonicalItem canvasURI item) ∧
      (items.map itemID).Nodup ∧ items.length ≤ maxAnnotationsPerPage :=
  ⟨fun page => ⟨page.named, page.canonical, page.distinct, page.bounded⟩,
    fun ⟨named, canonical, distinct, bounded⟩ => ⟨named, canonical, distinct, bounded⟩⟩

instance (canvasURI : String) (items : List Json) : Decidable (CanonicalPage canvasURI items) :=
  decidable_of_iff _ canonicalPage_iff.symm

def plainObject (canvasURI level id text xywh : String) : Object :=
  [("id", .str id), ("type", .str "Annotation"), ("textGranularity", .str level),
    ("motivation", .str "supplementing"), ("body", supplementingBody text),
    ("target", .str (canvasURI ++ "#xywh=" ++ xywh))]

theorem field_plainObject (canvasURI level id old new xywh : String) {key : String}
    (apart : "body" ≠ key) : Json.field (plainObject canvasURI level id old xywh) key =
      Json.field (plainObject canvasURI level id new xywh) key := by
  exact congrArg (Option.getD · Json.null)
    (Assoc.get_append_cons_of_ne ([("id", .str id), ("type", .str "Annotation"),
      ("textGranularity", .str level),
    ("motivation", .str "supplementing")] : Object) [("target", .str (canvasURI ++ "#xywh=" ++ xywh))]
      (supplementingBody old) (supplementingBody new) apart)

/-- Services that accept every URL, keep seeds as they are and know no outlines. -/
def plainExternals : Externals where
  resourceURL := fun _ _ => true
  digest := id
  mapSVGPoints := fun value _ => .ok value
  annotationLineGeometry := fun _ => .error "no line geometry"
  splitBaselineX := fun baseline _ => (baseline, [])

def plainIdentity : PageIdentity where
  publicBaseURL := "https://h"
  itemImageID := 1
  canvasURI := "https://h/c"

def listedOrder : IterationOrder where
  visit := fun _ ids => ids
  perm := fun _ ids => .refl ids

def plainLine (id text xywh : String) : Json := .obj (plainObject "https://h/c" "line" id text xywh)

def plainWord (id text xywh : String) : Json := .obj (plainObject "https://h/c" "word" id text xywh)

def twoWordPage (text first second : String) : List Json :=
  [plainLine "L" text "0,0,10,4", plainWord "A" first "0,0,5,4", plainWord "B" second "5,0,5,4"]

end Scribe.Server
