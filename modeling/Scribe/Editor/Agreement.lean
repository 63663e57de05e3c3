import Scribe.Data.Arrangement
import Scribe.Editor.Rows
import Scribe.Server.Page
import Mathlib.Data.String.Basic

/-! Whether the editor and the server give a word to the same line.

The editor compares vertical bands in the order of the tops of the boxes; the
server looks for the word's centre in the closed boxes in item order. On pixel
boxes the bands meet by a comparison of integers, so both rules are stated over
the boxes alone, and the two programs agree on a page exactly when the rules do.
-/

set_option autoImplicit false

namespace Scribe

namespace Editor

open Server List

/-! ## Bands of pixel boxes -/

def pixelBBox (box : Box) : BBox where
  h := (box.y2 - box.y1 : Nat)
  w := (box.x2 - box.x1 : Nat)
  x := box.x1
  y := box.y1

/-- The band a twentieth of its height around the centre of the lower box meets the rows of the
taller one. -/
def bandReaches (low tall : Box) : Bool :=
  20 * tall.y1 ≤ 20 * low.y1 + 11 * (low.y2 - low.y1) &&
    20 * low.y1 + 9 * (low.y2 - low.y1) ≤ 20 * tall.y2

def sharesBand (line word : Box) : Bool :=
  if word.y2 - word.y1 ≤ line.y2 - line.y1 then bandReaches word line else bandReaches line word

structure PixelBox (box : Box) : Prop where
  tall : box.y1 < box.y2
  bounded : box.y2 ≤ Iiif.maxPixelCoordinate

theorem verticalEntry_pixel {anno : Object} {box : Box} (pixel : PixelBox box)
    (read : annotationBBox anno = pixelBBox box) :
    (verticalEntry (anno, 0)).center = box.y1 + ((box.y2 - box.y1 : Nat) : ℚ) / 2 ∧
      (verticalEntry (anno, 0)).height = (box.y2 - box.y1 : Nat) := by
  have tall := pixel.tall
  have bounded := pixel.bounded
  have positive : (0 : ℚ) < (box.y2 - box.y1 : Nat) := by
    exact_mod_cast (by omega : 0 < box.y2 - box.y1)
  simp only [verticalEntry, read, pixelBBox, positive, if_true, and_true]
  exact Binary64.add_half_eq (by omega) (by unfold Iiif.maxPixelCoordinate at bounded; omega)

theorem bandsMeet_iff {line word : Object} {lineBox wordBox : Box} (linePixel : PixelBox lineBox)
    (wordPixel : PixelBox wordBox) (lineRead : annotationBBox line = pixelBBox lineBox)
    (wordRead : annotationBBox word = pixelBBox wordBox) :
    bandsMeet line word ↔ sharesBand lineBox wordBox := by
  obtain ⟨lineCenter, lineHeight⟩ := verticalEntry_pixel linePixel lineRead
  obtain ⟨wordCenter, wordHeight⟩ := verticalEntry_pixel wordPixel wordRead
  obtain ⟨lineTall, lineBounded⟩ := linePixel
  obtain ⟨wordTall, wordBounded⟩ := wordPixel
  unfold Iiif.maxPixelCoordinate at lineBounded wordBounded
  have linePositive : 0 < lineBox.y2 - lineBox.y1 := by omega
  have wordPositive : 0 < wordBox.y2 - wordBox.y1 := by omega
  have lineSmall : lineBox.y1 + (lineBox.y2 - lineBox.y1) < 2 ^ 31 := by omega
  have wordSmall : wordBox.y1 + (wordBox.y2 - wordBox.y1) < 2 ^ 31 := by omega
  have lineEnd : (lineBox.y1 : ℚ) + (lineBox.y2 - lineBox.y1 : Nat) = lineBox.y2 := by
    exact_mod_cast (by omega : lineBox.y1 + (lineBox.y2 - lineBox.y1) = lineBox.y2)
  have wordEnd : (wordBox.y1 : ℚ) + (wordBox.y2 - wordBox.y1 : Nat) = wordBox.y2 := by
    exact_mod_cast (by omega : wordBox.y1 + (wordBox.y2 - wordBox.y1) = wordBox.y2)
  obtain ⟨lineTop, lineBottom⟩ := Binary64.centre_half_extent linePositive lineSmall
  obtain ⟨wordTop, wordBottom⟩ := Binary64.centre_half_extent wordPositive wordSmall
  simp only [bandsMeet, VerticalEntry.meets, Pass.meets, Pass.linePoint, lineCenter, lineHeight,
    wordCenter, wordHeight, Nat.cast_le, sharesBand, Arithmetic.binary64_add,
    Arithmetic.binary64_sub, Arithmetic.binary64_mul]
  by_cases high : wordBox.y2 - wordBox.y1 ≤ lineBox.y2 - lineBox.y1
  · simp only [high, if_true, Pass.lineReach, Pass.wordReach, Arithmetic.binary64_twentieth,
      lineTop, lineBottom, lineEnd, bandReaches, Bool.and_eq_true, decide_eq_true_eq]
    rw [Binary64.compare_centre_add_twentieth wordPositive wordSmall,
      Binary64.compare_centre_sub_twentieth wordPositive wordSmall]
  · simp only [high, if_false, Pass.lineReach, Pass.wordReach, Arithmetic.binary64_twentieth,
      wordTop, wordBottom, wordEnd, bandReaches, Bool.and_eq_true, decide_eq_true_eq]
    rw [Binary64.compare_centre_add_twentieth linePositive lineSmall,
      Binary64.compare_centre_sub_twentieth linePositive lineSmall]
    exact and_comm

/-! ## Pages of lines and words -/

/-- A canonical page of line and word annotations, whose boxes both programs read as the same
pixels. -/
structure LineWordPage (canvasURI : String) (items : List Json) : Prop where
  canonical : CanonicalPage canvasURI items
  identified : ∀ item ∈ items, ∃ id, Json.field item.toObject "id" = .str id
  levels : ∀ item ∈ items, Json.field item.toObject "textGranularity" = .str "line" ∨
    Json.field item.toObject "textGranularity" = .str "word"
  boxes : ∀ item ∈ items, ∃ box, annotationBox item.toObject = .ok box ∧
    annotationBBox item.toObject = pixelBBox box

/-- The editor lists a line ahead of another: by top, left edge, identifier and at last item
order. -/
def readsAhead (collation : Collation) (a b : Located) : Prop :=
  a.box.y1 < b.box.y1 ∨ a.box.y1 = b.box.y1 ∧ (a.box.x1 < b.box.x1 ∨ a.box.x1 = b.box.x1 ∧
    (collation.le a.id b.id ∧ (collation.le b.id a.id → a.index < b.index)))

instance (collation : Collation) : DecidableRel (readsAhead collation) :=
  fun _ _ => inferInstanceAs (Decidable (_ ∨ _))

section
variable (collation : Collation)

theorem readsAhead_asymm {a b : Located} (ahead : readsAhead collation a b) :
    ¬ readsAhead collation b a := by
  intro back
  simp only [readsAhead] at ahead back
  grind

/-- The line is the first in the editor's order whose band the word's band meets. -/
def FirstMeeting (items : List Json) (line word : Located) : Prop :=
  sharesBand line.box word.box ∧ ∀ other ∈ linesOf items, sharesBand other.box word.box →
    other = line ∨ readsAhead collation line other

/-- The line is the first in item order whose closed box contains the centre of the word. -/
def FirstHolding (items : List Json) (line word : Located) : Prop :=
  line.box.holds word.box ∧ ∀ other ∈ linesOf items, other.box.holds word.box →
    line.index ≤ other.index

instance (items : List Json) (line word : Located) :
    Decidable (FirstMeeting collation items line word) :=
  inferInstanceAs (Decidable (_ ∧ _))

instance (items : List Json) (line word : Located) : Decidable (FirstHolding items line word) :=
  inferInstanceAs (Decidable (_ ∧ _))

end

section
variable {canvasURI : String} {items : List Json} (page : LineWordPage canvasURI items)
include page

theorem LineWordPage.objects_nodup : (items.map Json.toObject).Nodup := by
  apply List.Nodup.of_map fun anno => annStringValue anno "id"
  rw [map_map]
  exact page.canonical.distinct

section
variable {granularity : String} {located : Located} (member : located ∈ locatedOf items granularity)
include member

theorem LineWordPage.located_item : .obj located.anno ∈ items :=
  mem_of_getElem? (page.canonical.located_item member)

theorem LineWordPage.located_box : PixelBox located.box ∧
      annotationBBox located.anno = pixelBBox located.box := by
  have parsed := (mem_locatedOf.mp member).2.2
  obtain ⟨box, server, editor⟩ := page.boxes _ (page.located_item member)
  rw [Json.toObject_obj] at server editor
  obtain rfl : box = located.box := Except.ok.inj (server.symm.trans parsed)
  obtain ⟨-, tall, -, bounded⟩ := parseXYWH_bounds parsed
  exact ⟨⟨tall, bounded⟩, editor⟩

theorem LineWordPage.located_idText : idText located.anno = located.id := by
  obtain ⟨id, named⟩ := page.identified _ (page.located_item member)
  have filled := (page.canonical.located_identifier member).isField.1
  rw [Json.toObject_obj] at named
  simp only [Located.id, annStringValue, named] at filled ⊢
  simp [idText, named, textOrEmpty, truthy, scriptText, filled]

theorem LineWordPage.idxOf_anno : (items.map Json.toObject).idxOf located.anno = located.index := by
  have place := page.canonical.located_item member
  obtain ⟨inside, same⟩ := List.getElem?_eq_some_iff.mp place
  have within : located.index < (items.map Json.toObject).length := by simpa using inside
  have atIndex : (items.map Json.toObject)[located.index] = located.anno := by simp [same]
  rw [← atIndex, page.objects_nodup.idxOf_getElem]

end

theorem LineWordPage.level_iff {anno : Object} (listed : .obj anno ∈ items) :
    (isGranularity anno "line" = true ↔ isLineAnnotation anno = true) ∧
      (isGranularity anno "word" = true ↔ isWordAnnotation anno = true) := by
  have level := page.levels _ listed
  rw [Json.toObject_obj] at level
  rcases level with line | word
  · simp only [isGranularity, isLineAnnotation, isWordAnnotation, annotationGranularity,
      annStringValue, line]
    decide
  · simp only [isGranularity, isLineAnnotation, isWordAnnotation, annotationGranularity,
      annStringValue, word]
    decide

variable (collation : Collation)

theorem LineWordPage.mem_sortedAnnotations {anno : Object} :
    anno ∈ sortedAnnotations collation items ↔ .obj anno ∈ items := by
  simp only [sortedAnnotations, mem_insertionSort, mem_filter, mem_map]
  constructor
  · rintro ⟨⟨item, listed, rfl⟩, -⟩
    rwa [← (page.canonical.canonical item listed).isObject]
  · intro listed
    obtain ⟨id, named⟩ := page.identified _ listed
    have filled := (page.canonical.canonical _ listed).identified.isField.1
    simp only [itemID, annStringValue, named] at filled
    rw [Json.toObject_obj] at named
    exact ⟨⟨_, listed, rfl⟩, by simpa [hasId, named] using filled⟩

theorem LineWordPage.exists_located {anno : Object} {granularity : String} (listed : .obj anno ∈ items)
    (level : isGranularity anno granularity = true) : ∃ located ∈ locatedOf items granularity,
      located.anno = anno := by
  obtain ⟨index, place⟩ := mem_iff_getElem?.mp listed
  obtain ⟨box, parsed, -⟩ := page.boxes _ listed
  exact ⟨⟨anno, index, box⟩, mem_locatedOf.mpr ⟨⟨_, place, rfl⟩, level, parsed⟩, rfl⟩

theorem LineWordPage.mem_editorLines {anno : Object} :
    anno ∈ editorLines collation items ↔ ∃ line ∈ linesOf items, line.anno = anno := by
  rw [editorLines, mem_filter, page.mem_sortedAnnotations]
  constructor
  · rintro ⟨listed, level⟩
    exact page.exists_located listed ((page.level_iff listed).1.mpr level)
  · rintro ⟨line, member, rfl⟩
    have listed := page.located_item member
    exact ⟨listed, (page.level_iff listed).1.mp (mem_locatedOf.mp member).2.1⟩

theorem LineWordPage.mem_editorWords {word : Located} (member : word ∈ wordsOf items) :
    word.anno ∈ editorWords collation items := by
  rw [editorWords, mem_filter, page.mem_sortedAnnotations]
  have listed := page.located_item member
  exact ⟨listed, (page.level_iff listed).2.mp (mem_locatedOf.mp member).2.1⟩

theorem LineWordPage.readsBefore_iff {granularity : String} {a b : Located}
    (memberA : a ∈ locatedOf items granularity) (memberB : b ∈ locatedOf items granularity) :
    readsBefore collation a.anno b.anno ↔ a.box.y1 < b.box.y1 ∨ a.box.y1 = b.box.y1 ∧
      (a.box.x1 < b.box.x1 ∨ a.box.x1 = b.box.x1 ∧ collation.le a.id b.id) := by
  simp only [readsBefore, (page.located_box memberA).2, (page.located_box memberB).2, pixelBBox,
    page.located_idText memberA, page.located_idText memberB, Nat.cast_lt, Nat.cast_inj]

theorem LineWordPage.editorLines_pairwise :
    (editorLines collation items).Pairwise fun x y => ∀ a ∈ linesOf items, ∀ b ∈ linesOf items,
      a.anno = x → b.anno = y → readsAhead collation a b := by
  have sorted : (sortedAnnotations collation items).Pairwise _ :=
    pairwise_insertionSort_stable (r := readsBefore collation)
      ((pairwise_idxOf page.objects_nodup).sublist filter_sublist)
  refine (sorted.sublist filter_sublist).imp ?_
  rintro x y ⟨before, stable⟩ a memberA b memberB rfl rfl
  rw [page.readsBefore_iff collation memberB memberA, page.idxOf_anno memberA,
    page.idxOf_anno memberB] at stable
  rw [page.readsBefore_iff collation memberA memberB] at before
  simp only [readsAhead]
  grind

theorem LineWordPage.line_eq_of_anno {a b : Located} (memberA : a ∈ linesOf items)
    (memberB : b ∈ linesOf items) (same : a.anno = b.anno) : a = b :=
  page.canonical.located_eq_of_id memberA memberB (by rw [Located.id, Located.id, same])

theorem LineWordPage.bandsMeet_iff {line word : Located} (isLine : line ∈ linesOf items)
    (isWord : word ∈ wordsOf items) :
    bandsMeet line.anno word.anno ↔ sharesBand line.box word.box :=
  Editor.bandsMeet_iff (page.located_box isLine).1 (page.located_box isWord).1
    (page.located_box isLine).2
    (page.located_box isWord).2

theorem LineWordPage.nestedUnder_iff {line word : Located} (isLine : line ∈ linesOf items)
    (isWord : word ∈ wordsOf items) :
    NestedUnder (groupAnnotationsForEditor collation items) line.anno word.anno ↔
      FirstMeeting collation items line word := by
  have lineListed := (page.mem_editorLines collation).mpr ⟨line, isLine, rfl⟩
  have ordered := page.editorLines_pairwise collation
  rw [Editor.nestedUnder_iff collation lineListed (page.mem_editorWords collation isWord)]
  constructor
  · rintro ⟨before, after, split, meets, none⟩
    refine ⟨(page.bandsMeet_iff isLine isWord).mp meets, fun other isOther shares => ?_⟩
    have otherListed := (page.mem_editorLines collation).mpr ⟨other, isOther, rfl⟩
    rw [split, mem_append, mem_cons] at otherListed
    rcases otherListed with early | same | late
    · exact absurd ((page.bandsMeet_iff isOther isWord).mpr shares) (none _ early)
    · exact .inl (page.line_eq_of_anno isOther isLine same)
    · rw [split, pairwise_append, pairwise_cons] at ordered
      exact .inr (ordered.2.1.1 _ late line isLine other isOther rfl rfl)
  · rintro ⟨shares, first⟩
    obtain ⟨before, after, split⟩ := append_of_mem lineListed
    refine ⟨before, after, split, (page.bandsMeet_iff isLine isWord).mpr shares,
      fun anno early meets => ?_⟩
    -- A line listed earlier reads ahead of this one, which the condition excludes.
    have earlyListed : anno ∈ editorLines collation items := split ▸ mem_append_left _ early
    obtain ⟨other, isOther, rfl⟩ := (page.mem_editorLines collation).mp earlyListed
    rw [split, pairwise_append] at ordered
    have ahead := ordered.2.2 _ early _ mem_cons_self other isOther line isLine rfl rfl
    rcases first other isOther ((page.bandsMeet_iff isOther isWord).mp meets) with rfl | back
    · exact readsAhead_asymm collation ahead ahead
    · exact readsAhead_asymm collation ahead back

theorem LineWordPage.leftLoose_iff {word : Located} (isWord : word ∈ wordsOf items) :
    LeftLoose (groupAnnotationsForEditor collation items) word.anno ↔
      ∀ line ∈ linesOf items, sharesBand line.box word.box = false := by
  rw [Editor.leftLoose_iff collation (page.mem_editorWords collation isWord)]
  constructor
  · intro none line isLine
    have apart := none _ ((page.mem_editorLines collation).mpr ⟨line, isLine, rfl⟩)
    rw [page.bandsMeet_iff isLine isWord] at apart
    simpa using apart
  · intro none anno listed
    obtain ⟨line, isLine, rfl⟩ := (page.mem_editorLines collation).mp listed
    rw [page.bandsMeet_iff isLine isWord, none line isLine]
    simp

theorem LineWordPage.exists_firstMeeting {line word : Located} (isLine : line ∈ linesOf items)
    (isWord : word ∈ wordsOf items) (shares : sharesBand line.box word.box) :
    ∃ first ∈ linesOf items, FirstMeeting collation items first word := by
  have lineListed := (page.mem_editorLines collation).mpr ⟨line, isLine, rfl⟩
  have meets := (page.bandsMeet_iff isLine isWord).mpr shares
  obtain ⟨anno, found⟩ := Option.isSome_iff_exists.mp
    (find?_isSome (p := fun anno => decide (bandsMeet anno word.anno)).mpr
      ⟨_, lineListed, by simpa using meets⟩)
  obtain ⟨firstMeets, before, after, split, none⟩ := find?_eq_some_iff_append.mp found
  obtain ⟨first, isFirst, rfl⟩ := (page.mem_editorLines collation).mp (mem_of_find?_eq_some found)
  refine ⟨first, isFirst, (page.nestedUnder_iff collation isFirst isWord).mp
    ((Editor.nestedUnder_iff collation (mem_of_find?_eq_some found)
      (page.mem_editorWords collation isWord)).mpr
      ⟨before, after, split,
        by simpa using firstMeets, fun other early => by simpa using none other early⟩)⟩

/-! ## The server's owner -/

omit page in
theorem find?_holds_iff {line word : Located} (isLine : line ∈ linesOf items) :
    (linesOf items).find? (·.box.holds word.box) = some line ↔ FirstHolding items line word := by
  have increasing : (linesOf items).Pairwise fun a b => a.index < b.index :=
    locatedOf_increasing items "line"
  constructor
  · intro found
    obtain ⟨holds, before, after, split, none⟩ := find?_eq_some_iff_append.mp found
    refine ⟨holds, fun other isOther otherHolds => ?_⟩
    rw [split, mem_append, mem_cons] at isOther
    rw [split, pairwise_append, pairwise_cons] at increasing
    rcases isOther with early | rfl | late
    · have fails := none other early
      rw [otherHolds] at fails
      cases fails
    · exact le_rfl
    · exact (increasing.2.1.1 other late).le
  · rintro ⟨holds, first⟩
    obtain ⟨before, after, split⟩ := append_of_mem isLine
    refine find?_eq_some_iff_append.mpr ⟨holds, before, after, split, fun other early => ?_⟩
    by_contra otherHolds
    have isOther : other ∈ linesOf items := split ▸ mem_append_left _ early
    have later := first other isOther (by simpa using otherHolds)
    rw [split, pairwise_append] at increasing
    exact absurd (increasing.2.2 other early line mem_cons_self) (not_lt.mpr later)

omit page in
theorem exists_firstHolding {line word : Located} (isLine : line ∈ linesOf items)
    (holds : line.box.holds word.box) : ∃ first ∈ linesOf items, FirstHolding items first word := by
  obtain ⟨first, found⟩ := Option.isSome_iff_exists.mp
    (find?_isSome (p := fun line : Located => line.box.holds word.box).mpr ⟨line, isLine, holds⟩)
  have isFirst := mem_of_find?_eq_some found
  exact ⟨first, isFirst, (find?_holds_iff isFirst).mp found⟩

theorem LineWordPage.owned_iff {line word : Located} (isLine : line ∈ linesOf items)
    (isWord : word ∈ wordsOf items) :
    word ∈ wordsOfLine (assignSpatialWordsToLines items none) line.id ↔
      FirstHolding items line word := by
  have owned : word ∈ wordsOfLine (assignSpatialWordsToLines items none) line.id ↔
      lineOwner items none word = some line.id := by
    rw [page.canonical.wordsOfLine_eq, wordsOwnedBy, sortWithinLine, mem_insertionSort, mem_filter,
      decide_eq_true_eq]
    exact and_iff_right isWord
  have search : lineOwner items none word = ((linesOf items).find? (·.box.holds word.box)).map
      Located.id := by
    simp [lineOwner]
  rw [owned, search, Option.map_eq_some_iff]
  constructor
  · rintro ⟨found, at_, same⟩
    obtain rfl := page.canonical.located_eq_of_id (mem_of_find?_eq_some at_) isLine same
    exact (find?_holds_iff isLine).mp at_
  · exact fun first => ⟨line, (find?_holds_iff isLine).mpr first, rfl⟩

end

/-! ## Agreement -/

section
variable (collation : Collation)

/-- What the editor shows of a page agrees with what the server will reconcile. -/
structure OwnershipAgrees (items : List Json) : Prop where
  nested : ∀ line ∈ linesOf items, ∀ word ∈ wordsOf items,
    NestedUnder (groupAnnotationsForEditor collation items) line.anno word.anno →
      word ∈ wordsOfLine (assignSpatialWordsToLines items none) line.id
  loose : ∀ word ∈ wordsOf items, LeftLoose (groupAnnotationsForEditor collation items) word.anno ↔
    ∀ line ∈ linesOf items, word ∉ wordsOfLine (assignSpatialWordsToLines items none) line.id

/-- The boxes lead both rules to the same line: the first line that holds the centre of a word is
met by its band before every other line, and a word whose centre is in no line meets no band. -/
structure BandsFollowBoxes (items : List Json) : Prop where
  held : ∀ word ∈ wordsOf items, ∀ line ∈ linesOf items, FirstHolding items line word →
    FirstMeeting collation items line word
  unheld : ∀ word ∈ wordsOf items, (∀ line ∈ linesOf items, line.box.holds word.box = false) →
    ∀ line ∈ linesOf items, sharesBand line.box word.box = false

variable {canvasURI : String} {items : List Json}

theorem firstMeeting_unique {a b word : Located} (isA : a ∈ linesOf items) (isB : b ∈ linesOf items)
    (firstA : FirstMeeting collation items a word)
    (firstB : FirstMeeting collation items b word) : a = b := by
  rcases firstA.2 b isB firstB.1 with same | ahead
  · exact same.symm
  · rcases firstB.2 a isA firstA.1 with same | back
    · exact same
    · exact absurd back (readsAhead_asymm collation ahead)

theorem editor_and_server_agree_iff (page : LineWordPage canvasURI items) :
    OwnershipAgrees collation items ↔ BandsFollowBoxes collation items := by
  constructor
  · intro agrees
    refine ⟨fun word isWord line isLine first => ?_, fun word isWord none => ?_⟩
    · -- The server gives the word to the line, so the editor nests it somewhere, and only here.
      have owned := (page.owned_iff isLine isWord).mpr first
      have placed : ¬ LeftLoose (groupAnnotationsForEditor collation items) word.anno := fun loose =>
        (agrees.loose word isWord).mp loose line isLine owned
      rw [page.leftLoose_iff collation isWord] at placed
      push Not at placed
      obtain ⟨met, isMet, shares⟩ := placed
      obtain ⟨owner, isOwner, meeting⟩ :=
        page.exists_firstMeeting collation isMet isWord (by simpa using shares)
      have same :=
        agrees.nested owner isOwner word isWord
          ((page.nestedUnder_iff collation isOwner isWord).mpr meeting)
      have holding := (page.owned_iff isOwner isWord).mp same
      have index : owner.index = line.index :=
        le_antisymm (holding.2 line isLine first.1) (first.2 owner isOwner holding.1)
      rwa [← page.canonical.located_eq_of_index isOwner isLine index]
    · refine (page.leftLoose_iff collation isWord).mp
        ((agrees.loose word isWord).mpr fun line isLine owned => ?_)
      have holds := ((page.owned_iff isLine isWord).mp owned).1
      rw [none line isLine] at holds
      cases holds
  · intro follows
    -- By the condition, a word that no line holds meets no band.
    have holdsSome : ∀ word ∈ wordsOf items, ∀ line ∈ linesOf items, sharesBand line.box word.box →
        ∃ owner ∈ linesOf items, FirstHolding items owner word := by
      intro word isWord line isLine shares
      by_contra none
      have unheld : ∀ other ∈ linesOf items, other.box.holds word.box = false := by
        intro other isOther
        by_contra holds
        exact none (exists_firstHolding isOther (by simpa using holds))
      rw [follows.unheld word isWord unheld line isLine] at shares
      cases shares
    refine ⟨fun line isLine word isWord nested => ?_, fun word isWord =>
      ⟨fun loose line isLine owned => ?_, fun none => ?_⟩⟩
    · have meeting := (page.nestedUnder_iff collation isLine isWord).mp nested
      obtain ⟨owner, isOwner, holding⟩ := holdsSome word isWord line isLine meeting.1
      have ownerMeets := follows.held word isWord owner isOwner holding
      rw [firstMeeting_unique collation isLine isOwner meeting ownerMeets]
      exact (page.owned_iff isOwner isWord).mpr holding
    · have meeting := follows.held word isWord line isLine ((page.owned_iff isLine isWord).mp owned)
      have apart := (page.leftLoose_iff collation isWord).mp loose line isLine
      rw [meeting.1] at apart
      cases apart
    · refine (page.leftLoose_iff collation isWord).mpr fun line isLine => ?_
      by_contra shares
      obtain ⟨owner, isOwner, holding⟩ := holdsSome word isWord line isLine (by simpa using shares)
      exact none owner isOwner ((page.owned_iff isOwner isWord).mpr holding)

end

/-! ## Two pages -/

def isPixelItem (item : Json) : Bool :=
  let anno := item.toObject
  let level := Json.field anno "textGranularity"
  Json.field anno "id" = .str (itemID item) && (level = .str "line" || level = .str "word") &&
    (annotationBox anno).toOption.any fun box => annotationBBox anno = pixelBBox box

theorem lineWordPage_of_test {canvasURI : String} {items : List Json}
    (canonical : CanonicalPage canvasURI items) (test : items.all isPixelItem = true) :
    LineWordPage canvasURI items := by
  have each : ∀ item ∈ items, isPixelItem item = true := all_eq_true.mp test
  simp only [isPixelItem, Bool.and_eq_true, Bool.or_eq_true, decide_eq_true_eq] at each
  refine ⟨canonical, fun item member => ⟨_, (each item member).1.1⟩, fun item member =>
    (each item member).1.2, ?_⟩
  intro item member
  have boxed := (each item member).2
  cases parsed : annotationBox item.toObject with
  | error message => simp [parsed, Except.toOption] at boxed
  | ok box => exact ⟨box, rfl, by simpa [parsed, Except.toOption] using boxed⟩

theorem editor_and_server_agree_on_two_words :
    OwnershipAgrees codePointOrder (twoWordPage "a b" "a" "b") := by
  refine (editor_and_server_agree_iff codePointOrder
    (lineWordPage_of_test (by decide +kernel) (by decide +kernel) :
    LineWordPage "https://h/c" _)).mpr ⟨?_, ?_⟩
  · have held : ∀ word ∈ wordsOf (twoWordPage "a b" "a" "b"),
        ∀ line ∈ linesOf (twoWordPage "a b" "a" "b"), sharesBand line.box word.box ∧
          ∀ other ∈ linesOf (twoWordPage "a b" "a" "b"), other = line := by decide +kernel
    intro word isWord line isLine _
    exact ⟨(held word isWord line isLine).1, fun other isOther _ =>
      .inl ((held word isWord line isLine).2 other isOther)⟩
  · have holds : ∀ word ∈ wordsOf (twoWordPage "a b" "a" "b"),
        ∃ line ∈ linesOf (twoWordPage "a b" "a" "b"),
        line.box.holds word.box = true := by decide +kernel
    intro word isWord none
    obtain ⟨line, isLine, held⟩ := holds word isWord
    rw [none line isLine] at held
    cases held

/-- Two columns of one line each, and a word in the right one. -/
def twoColumnPage : List Json :=
  [plainLine "left" "alpha" "0,0,100,20", plainLine "right" "beta" "200,0,100,20",
    plainWord "word" "beta" "210,2,60,16"]

def leftColumn : Located :=
  ⟨plainObject "https://h/c" "line" "left" "alpha" "0,0,100,20", 0, ⟨0, 0, 100, 20⟩⟩

def rightWord : Located :=
  ⟨plainObject "https://h/c" "word" "word" "beta" "210,2,60,16", 2, ⟨210, 2, 270, 18⟩⟩

/-- The editor nests the word of the right column under the line of the left one, to which the
server does not give it. -/
theorem two_columns_disagree : LineWordPage "https://h/c" twoColumnPage ∧
      leftColumn ∈ linesOf twoColumnPage ∧
    rightWord ∈ wordsOf twoColumnPage ∧
    NestedUnder (groupAnnotationsForEditor codePointOrder twoColumnPage) leftColumn.anno
      rightWord.anno ∧
    rightWord ∉ wordsOfLine (assignSpatialWordsToLines twoColumnPage none) leftColumn.id := by
  have page : LineWordPage "https://h/c" twoColumnPage :=
    lineWordPage_of_test (by decide +kernel) (by decide +kernel)
  have isLine : leftColumn ∈ linesOf twoColumnPage := by decide +kernel
  have isWord : rightWord ∈ wordsOf twoColumnPage := by decide +kernel
  refine ⟨page, isLine, isWord, (page.nestedUnder_iff codePointOrder isLine isWord).mpr
    (by decide +kernel), ?_⟩
  rw [page.owned_iff isLine isWord]
  decide +kernel

end Editor

end Scribe
