import Scribe.Data.Arrangement
import Scribe.Server.Page

/-! The sweep against the double loop it replaces.

A word belongs to the eligible line on its Canvas with the smallest item position
among those whose closed box contains its centre. The words of a line come in the
order of their left edges, then of their centres, then of the items: the sweep
visits words by centre and the last sort is stable. The Canvases may be visited in
any order, since a line with an identifier of its own lies on one of them.
-/

set_option autoImplicit false

namespace Scribe.Server

open List

/-! ## The Canvases in any order -/

def wordCanvases (items : List Json) : List String := ((spatialWords items).map (·.1)).dedup

def assignedPairsOn (canvases : List String) (items : List Json) (eligible : Option (List String)) :
    List (String × PositionedWord) :=
  canvases.flatMap fun canvasURI =>
    assignOnCanvas (spatialLines items eligible canvasURI)
      (((spatialWords items).filter (·.1 = canvasURI)).map (·.2))

/-- The assignment with the Canvases visited in a given order. -/
def assignVisiting (canvases : List String) (items : List Json) (eligible : Option (List String)) :
    List (String × List PositionedWord) :=
  ((assignedPairsOn canvases items eligible).foldl appendTo []).map fun group =>
    (group.1, group.2.insertionSort fun a b => a.x1 ≤ b.x1)

/-! ## The double loop -/

structure SpatialAt (items : List Json) (level : String) (position : Nat) (anno : Object)
    (box : Box) : Prop where
  item : items[position]? = some (.obj anno)
  isLevel : hasLowerGranularity anno level = true
  parsed : annotationBox anno = .ok box
  onCanvas : extractCanvasURI anno ≠ ""

/-- A line that may own a word. -/
structure MayOwn (items : List Json) (eligible : Option (List String)) (position : Nat) (line : Object)
    (word : Object) (wordBox : Box) : Prop where
  isEligible : ∀ ids ∈ eligible, annStringValue line "id" ∈ ids
  sameCanvas : extractCanvasURI line = extractCanvasURI word
  contains : ∃ box, SpatialAt items "line" position line box ∧ box.holds wordBox = true

/-- The line with the smallest item position that may own a word. -/
def NaiveOwner (items : List Json) (eligible : Option (List String)) (line word : Object)
    (wordBox : Box) : Prop :=
  ∃ position, MayOwn items eligible position line word wordBox ∧
    ∀ other otherLine, MayOwn items eligible other otherLine word wordBox → position ≤ other

def annotationIDs (items : List Json) : List String :=
  (items.filter fun item => item = .obj item.toObject).map itemID

theorem position_eq_of_id {items : List Json} (distinct : (annotationIDs items).Nodup) {p q : Nat}
    {a b : Object} (first : items[p]? = some (.obj a)) (second : items[q]? = some (.obj b))
    (same : annStringValue a "id" = annStringValue b "id") : p = q := by
  rw [annotationIDs, List.Nodup, pairwise_map, pairwise_filter, pairwise_iff_getElem] at distinct
  obtain ⟨pInside, atP⟩ := List.getElem?_eq_some_iff.mp first
  obtain ⟨qInside, atQ⟩ := List.getElem?_eq_some_iff.mp second
  rcases lt_trichotomy p q with less | equal | more
  · have apart := distinct p q pInside qInside less
    simp only [atP, atQ, Json.toObject_obj, decide_true, forall_const, itemID] at apart
    exact absurd same apart
  · exact equal
  · have apart := distinct q p qInside pInside more
    simp only [atP, atQ, Json.toObject_obj, decide_true, forall_const, itemID] at apart
    exact absurd same.symm apart

def centreRow (anno : Object) : Nat :=
  match annotationBox anno with
  | .ok box => box.y1 + (box.y2 - box.y1) / 2
  | .error _ => 0

def aboveWord (a b : PositionedWord) : Prop :=
  centreRow a.anno < centreRow b.anno ∨ (centreRow a.anno = centreRow b.anno ∧ a.index < b.index)

def beforeInLine (a b : PositionedWord) : Prop := a.x1 < b.x1 ∨ (a.x1 = b.x1 ∧ aboveWord a b)

/-- What the double loop assigns. A missing line has no words. -/
structure AssignsNaively (items : List Json) (eligible : Option (List String))
    (assigned : List (String × List PositionedWord)) : Prop where
  owner : ∀ position anno box, SpatialAt items "word" position anno box → ∀ lineID,
    (⟨position, box.x1, anno⟩ : PositionedWord) ∈ (Assoc.get assigned lineID).getD [] ↔
      ∃ line, NaiveOwner items eligible line anno box ∧ annStringValue line "id" = lineID
  only : ∀ lineID, ∀ word ∈ (Assoc.get assigned lineID).getD [], ∃ box,
    SpatialAt items "word" word.index word.anno box ∧ word.x1 = box.x1
  once : ∀ lineID otherID, ∀ word ∈ (Assoc.get assigned lineID).getD [],
    ∀ other ∈ (Assoc.get assigned otherID).getD [], word.index = other.index → lineID = otherID
  sorted : ∀ lineID, ((Assoc.get assigned lineID).getD []).Pairwise beforeInLine

/-! ## Words and lines of the sweep -/

theorem mem_spatialWords {items : List Json} {entry : String × SpatialWord} :
    entry ∈ spatialWords items ↔ ∃ position anno box, SpatialAt items "word" position anno box ∧
      entry = (extractCanvasURI anno, (⟨anno, position, box⟩ : Located).toSpatialWord) := by
  simp only [spatialWords, mem_filterMap, Prod.exists, mem_zipIdx_iff_getElem?]
  constructor
  · rintro ⟨item, position, listed, found⟩
    cases place : spatialItem? item with
    | none => simp [spatialWord?, place] at found
    | some parts =>
      obtain ⟨anno, canvas, box⟩ := parts
      obtain ⟨rfl, parsed, rfl, named⟩ := spatialItem?_eq_some.mp place
      simp only [spatialWord?, place] at found
      split at found
      · rename_i isWord
        exact ⟨position, anno, box, ⟨listed, isWord, parsed, named⟩, (Option.some.inj found).symm⟩
      · cases found
  · rintro ⟨position, anno, box, ⟨listed, isWord, parsed, named⟩, rfl⟩
    refine ⟨.obj anno, position, listed, ?_⟩
    have place : spatialItem? (.obj anno) = some (anno, extractCanvasURI anno, box) :=
      spatialItem?_eq_some.mpr ⟨rfl, parsed, rfl, named⟩
    simp only [spatialWord?, place, isWord, if_true]
    rfl

theorem mem_spatialLines {items : List Json} {eligible : Option (List String)} {canvasURI : String}
    {line : SpatialLine} :
    line ∈ spatialLines items eligible canvasURI ↔
      ∃ anno, SpatialAt items "line" line.order anno line.box ∧
      annStringValue anno "id" = line.id ∧ extractCanvasURI anno = canvasURI ∧ ∀ ids ∈ eligible,
        line.id ∈ ids := by
  simp only [spatialLines, mem_filterMap, Prod.exists, mem_zipIdx_iff_getElem?, spatialLine?_eq_some]
  constructor
  · rintro ⟨item, position, listed, anno, rfl, parsed, rfl, named, isLine, sameID, accepted, rfl⟩
    exact ⟨anno, ⟨listed, isLine, parsed, named⟩, sameID, rfl, accepted⟩
  · rintro ⟨anno, ⟨listed, isLine, parsed, named⟩, sameID, rfl, accepted⟩
    exact ⟨.obj anno, line.order, listed, anno, rfl, parsed, rfl, named, isLine, sameID, accepted, rfl⟩

theorem contains_toSpatialWord (line : SpatialLine) (word : Located) :
    line.contains word.toSpatialWord = line.box.holds word.box := rfl

theorem ownerOf_eq_some_iff {items : List Json} {eligible : Option (List String)} {position : Nat}
    {anno : Object} {box : Box} {lineID : String} :
    ownerOf items eligible (extractCanvasURI anno,
      (⟨anno, position, box⟩ : Located).toSpatialWord) = some lineID ↔
      ∃ line, NaiveOwner items eligible line anno box ∧ annStringValue line "id" = lineID := by
  have ordered := spatialLines_increasing items eligible (extractCanvasURI anno)
  -- Lines are listed in item order, so the first that holds the word is the least.
  have listed_of : ∀ other otherLine, MayOwn items eligible other otherLine anno box → ∃ spatial,
      spatial ∈ spatialLines items eligible (extractCanvasURI anno) ∧ spatial.order = other ∧
        spatial.box.holds box = true ∧ spatial.id = annStringValue otherLine "id" := by
    rintro other otherLine ⟨isEligible, sameCanvas, otherBox, place, holds⟩
    exact ⟨⟨annStringValue otherLine "id", otherBox, other⟩,
      mem_spatialLines.mpr ⟨otherLine, place, rfl, sameCanvas, isEligible⟩, rfl, holds, rfl⟩
  simp only [ownerOf, Option.map_eq_some_iff, contains_toSpatialWord]
  constructor
  · rintro ⟨first, found, rfl⟩
    obtain ⟨holds, before, after, split, skipped⟩ := find?_eq_some_iff_append.mp found
    obtain ⟨line, place, sameID, sameCanvas, accepted⟩ :=
      mem_spatialLines.mp (mem_of_find?_eq_some found)
    refine ⟨line, ⟨first.order, ⟨sameID ▸ accepted, sameCanvas, first.box, place, holds⟩, ?_⟩, sameID⟩
    intro other otherLine may
    obtain ⟨spatial, listed, rfl, otherHolds, -⟩ := listed_of other otherLine may
    rw [split] at listed ordered
    rcases mem_append.mp listed with early | late
    · exact absurd otherHolds (by simpa using skipped spatial early)
    · rcases mem_cons.mp late with rfl | late
      · exact le_refl _
      · exact le_of_lt (rel_of_pairwise_cons (pairwise_append.mp ordered).2.1 late)
  · rintro ⟨line, ⟨least, may, smallest⟩, rfl⟩
    obtain ⟨spatial, listed, rfl, holds, sameID⟩ := listed_of least line may
    cases found : (spatialLines items eligible (extractCanvasURI anno)).find? (·.box.holds box) with
    | none => exact absurd holds (find?_eq_none.mp found spatial listed)
    | some first =>
      refine ⟨first, rfl, ?_⟩
      obtain ⟨firstHolds, before, after, split, skipped⟩ := find?_eq_some_iff_append.mp found
      obtain ⟨firstLine, place, firstID, sameCanvas, accepted⟩ :=
        mem_spatialLines.mp (mem_of_find?_eq_some found)
      have le := smallest first.order firstLine ⟨firstID ▸ accepted, sameCanvas, first.box,
        place, firstHolds⟩
      rw [split] at listed ordered
      rcases mem_append.mp listed with early | late
      · exact absurd holds (by simpa using skipped spatial early)
      · rcases mem_cons.mp late with rfl | late
        · exact sameID
        · exact absurd (rel_of_pairwise_cons (pairwise_append.mp ordered).2.1 late) (Nat.not_lt.mpr le)

theorem exists_naiveOwner {items : List Json} {eligible : Option (List String)} {position : Nat}
    {line word : Object} {box : Box} (may : MayOwn items eligible position line word box) :
    ∃ owner ownerPosition, MayOwn items eligible ownerPosition owner word box ∧
      ownerPosition ≤ position ∧
      NaiveOwner items eligible owner word box := by
  classical
  have some : ∃ other otherLine, MayOwn items eligible other otherLine word
    box := ⟨position, line, may⟩
  obtain ⟨owner, isFirst⟩ := Nat.find_spec some
  have least : ∀ other otherLine, MayOwn items eligible other otherLine word box →
      Nat.find some ≤ other :=
    fun other otherLine may => Nat.find_min' some ⟨otherLine, may⟩
  exact ⟨owner, Nat.find some, isFirst, least position line may, Nat.find some, isFirst, least⟩

/-! ## The words of one line -/

section
variable {items : List Json} {eligible : Option (List String)} {canvases : List String}

theorem getD_assignVisiting (lineID : String) :
    (Assoc.get (assignVisiting canvases items eligible) lineID).getD [] =
      (((assignedPairsOn canvases items eligible).filter (·.1 = lineID)).map (·.2)).insertionSort
        fun a b => a.x1 ≤ b.x1 := by
  have listed := get_foldl_appendTo (assignedPairsOn canvases items eligible) [] lineID
  simp only [Assoc.get_nil, Option.getD_none, nil_append] at listed
  rw [assignVisiting, get_map_value (fun words : List PositionedWord =>
    words.insertionSort fun a b => a.x1 ≤ b.x1), ← listed]
  cases Assoc.get ((assignedPairsOn canvases items eligible).foldl appendTo []) lineID with
  | none => rfl
  | some words => rfl

theorem mem_assignedPairsOn (visited : canvases.Perm (wordCanvases items)) {lineID : String}
    {word : PositionedWord} : (lineID, word) ∈ assignedPairsOn canvases items eligible ↔
      ∃ entry ∈ spatialWords items, ownerOf items eligible entry = some lineID ∧
        entry.2.word = word := by
  have canonical := assignedPairs_perm items eligible
  have perm : (assignedPairsOn canvases items eligible).Perm (assignedPairs items eligible) :=
    visited.flatMap_right _
  rw [(perm.trans canonical).mem_iff, mem_filterMap]
  simp only [Option.map_eq_some_iff, Prod.mk.injEq]
  constructor
  · rintro ⟨entry, listed, id, owned, rfl, rfl⟩
    exact ⟨entry, listed, owned, rfl⟩
  · rintro ⟨entry, listed, owned, rfl⟩
    exact ⟨entry, listed, lineID, owned, rfl, rfl⟩

theorem mem_getD_assignVisiting (visited : canvases.Perm (wordCanvases items)) {lineID : String}
    {word : PositionedWord} :
    word ∈ (Assoc.get (assignVisiting canvases items eligible) lineID).getD [] ↔
      ∃ anno box, SpatialAt items "word" word.index anno box ∧ word = ⟨word.index, box.x1, anno⟩ ∧
        ∃ line, NaiveOwner items eligible line anno box ∧ annStringValue line "id" = lineID := by
  rw [getD_assignVisiting, mem_insertionSort, mem_map]
  constructor
  · rintro ⟨⟨id, listed⟩, member, rfl⟩
    obtain ⟨inside, same⟩ := mem_filter.mp member
    obtain ⟨entry, isWord, owned, rfl⟩ := (mem_assignedPairsOn visited).mp inside
    obtain ⟨position, anno, box, place, rfl⟩ := mem_spatialWords.mp isWord
    refine ⟨anno, box, place, rfl, ?_⟩
    obtain rfl : id = lineID := by simpa using same
    exact ownerOf_eq_some_iff.mp owned
  · rintro ⟨anno, box, place, same, owner⟩
    refine ⟨(lineID, word), mem_filter.mpr ⟨?_, by simp⟩, rfl⟩
    exact (mem_assignedPairsOn visited).mpr ⟨_,
      mem_spatialWords.mpr ⟨word.index, anno, box, place, rfl⟩,
      ownerOf_eq_some_iff.mpr owner, same.symm⟩

theorem assignOnCanvas_above (canvasURI : String) :
    (assignOnCanvas (spatialLines items eligible canvasURI)
      (((spatialWords items).filter (·.1 = canvasURI)).map (·.2))).Pairwise fun a b =>
        aboveWord a.2 b.2 := by
  rw [assignOnCanvas_eq _ _ spatialLines_upright (spatialLines_increasing items eligible canvasURI)]
  have total : Std.Total wordBefore := ⟨fun a b => by unfold wordBefore; omega⟩
  have trans : IsTrans SpatialWord wordBefore := ⟨fun a b c => by unfold wordBefore; omega⟩
  have inItems : (((spatialWords items).filter (·.1 = canvasURI)).map (·.2)).Pairwise
      fun a b : SpatialWord => a.word.index < b.word.index := by
    rw [pairwise_map]
    exact (spatialWords_increasing items).sublist filter_sublist
  have sorted := pairwise_insertionSort_stable (r := wordBefore) inItems
  rw [pairwise_filterMap]
  refine sorted.imp_of_mem ?_
  intro a b memberA memberB related x fromA y fromB
  have centred :
      ∀ word ∈ (((spatialWords items).filter (·.1 = canvasURI)).map (·.2)).insertionSort wordBefore,
          centreRow word.word.anno = word.centerY := by
    intro word member
    obtain ⟨entry, inside, rfl⟩ := mem_map.mp ((mem_insertionSort _).mp member)
    obtain ⟨position, anno, box, place, rfl⟩ := mem_spatialWords.mp (mem_filter.mp inside).1
    simp only [centreRow, Located.toSpatialWord, place.parsed]
  obtain ⟨lineA, -, rfl⟩ := Option.map_eq_some_iff.mp fromA
  obtain ⟨lineB, -, rfl⟩ := Option.map_eq_some_iff.mp fromB
  simp only [aboveWord, centred a memberA, centred b memberB]
  unfold wordBefore at related
  omega

theorem assignedPairsOn_above (distinct : (annotationIDs items).Nodup)
    (visited : canvases.Perm (wordCanvases items)) (lineID : String) :
    ((assignedPairsOn canvases items eligible).filter (·.1 = lineID)).Pairwise fun a b =>
      aboveWord a.2 b.2 := by
  have onCanvas : ∀ canvasURI, ∀ pair ∈ (assignOnCanvas (spatialLines items eligible canvasURI)
      (((spatialWords items).filter (·.1 = canvasURI)).map (·.2))).filter (·.1 = lineID),
      ∃ (position : Nat) (anno : Object), items[position]? = some (.obj anno) ∧
        annStringValue anno "id" = lineID ∧
        extractCanvasURI anno = canvasURI := by
    intro canvasURI pair member
    obtain ⟨inside, same⟩ := mem_filter.mp member
    rw [assignOnCanvas_eq _ _ spatialLines_upright
      (spatialLines_increasing items eligible canvasURI)] at inside
    obtain ⟨word, -, found⟩ := mem_filterMap.mp inside
    obtain ⟨line, searched, rfl⟩ := Option.map_eq_some_iff.mp found
    obtain ⟨anno, place, sameID, sameCanvas, -⟩ := mem_spatialLines.mp (mem_of_find?_eq_some searched)
    exact ⟨line.order, anno, place.item, sameID.trans (by simpa using same), sameCanvas⟩
  rw [assignedPairsOn, filter_flatMap, pairwise_flatMap]
  refine ⟨fun canvasURI _ => (assignOnCanvas_above canvasURI).sublist filter_sublist, ?_⟩
  have apart : canvases.Nodup := visited.nodup_iff.mpr (nodup_dedup _)
  refine apart.imp ?_
  intro first second differ x memberX y memberY
  -- both words name one line, which lies on one Canvas
  obtain ⟨p, anno, place, sameID, rfl⟩ := onCanvas first x memberX
  obtain ⟨q, other, otherPlace, otherID, rfl⟩ := onCanvas second y memberY
  obtain rfl := position_eq_of_id distinct place otherPlace (sameID.trans otherID.symm)
  obtain rfl := Json.obj.inj (Option.some.inj (place.symm.trans otherPlace))
  exact absurd rfl differ

end

/-- The sweep assigns every word as the double loop does, whatever the order of the Canvases. -/
theorem sweep_assigns_naively {items : List Json} (eligible : Option (List String))
    {canvases : List String} (distinct : (annotationIDs items).Nodup)
    (visited : canvases.Perm (wordCanvases items)) :
    AssignsNaively items eligible (assignVisiting canvases items eligible) where
  owner position anno box place lineID := by
    rw [mem_getD_assignVisiting visited]
    constructor
    · rintro ⟨other, otherBox, otherPlace, same, owner⟩
      obtain rfl := Json.obj.inj (Option.some.inj (place.item.symm.trans otherPlace.item))
      obtain rfl := Except.ok.inj (place.parsed.symm.trans otherPlace.parsed)
      exact owner
    · exact fun owner => ⟨anno, box, place, rfl, owner⟩
  only lineID word member := by
    obtain ⟨anno, box, place, same, -⟩ := (mem_getD_assignVisiting visited).mp member
    rw [same]
    exact ⟨box, place, rfl⟩
  once lineID otherID word member other otherMember same := by
    obtain ⟨anno, box, place, isWord, line, ⟨position, may, least⟩, rfl⟩ :=
      (mem_getD_assignVisiting visited).mp member
    obtain ⟨otherAnno, otherBox, otherPlace, isOther, otherLine,
        ⟨otherPosition, otherMay, otherLeast⟩, rfl⟩ :=
      (mem_getD_assignVisiting visited).mp otherMember
    rw [same] at place
    obtain rfl := Json.obj.inj (Option.some.inj (place.item.symm.trans otherPlace.item))
    obtain rfl := Except.ok.inj (place.parsed.symm.trans otherPlace.parsed)
    obtain rfl := le_antisymm (least _ _ otherMay) (otherLeast _ _ may)
    obtain ⟨lineBox, linePlace, -⟩ := may.contains
    obtain ⟨otherLineBox, otherLinePlace, -⟩ := otherMay.contains
    obtain rfl := Json.obj.inj (Option.some.inj (linePlace.item.symm.trans otherLinePlace.item))
    rfl
  sorted lineID := by
    have total : Std.Total fun a b : PositionedWord => a.x1 ≤ b.x1 := ⟨fun a b => le_total a.x1 b.x1⟩
    have trans : IsTrans PositionedWord fun a b => a.x1 ≤ b.x1 := ⟨fun a b c => le_trans⟩
    rw [getD_assignVisiting]
    refine (pairwise_insertionSort_stable
      (pairwise_map.mpr (assignedPairsOn_above distinct visited lineID))).imp ?_
    rintro a b ⟨le, ties⟩
    rcases Nat.lt_or_eq_of_le le with less | same
    · exact .inl less
    · exact .inr ⟨same, ties (Nat.le_of_eq same.symm)⟩

/-- Two overlapping lines and two stacked words, all visited on one Canvas. -/
def overlappingPage : List Json :=
  [plainLine "L" "a b" "0,0,10,8", plainWord "A" "a" "0,4,5,4", plainWord "B" "b" "0,0,5,4",
    plainLine "M" "c" "0,2,10,8"]

theorem sweep_assigns_naively_overlapping :
    ∃ canvases, canvases.Perm (wordCanvases overlappingPage) ∧ (annotationIDs overlappingPage).Nodup ∧
      AssignsNaively overlappingPage none (assignVisiting canvases overlappingPage none) ∧
      ((Assoc.get (assignVisiting canvases overlappingPage none) "L").getD []).map
        (·.index) = [2, 1] := by
  have distinct : (annotationIDs overlappingPage).Nodup := by decide +kernel
  refine ⟨wordCanvases overlappingPage, .refl _, distinct,
    sweep_assigns_naively none distinct (.refl _), ?_⟩
  decide +kernel

end Scribe.Server
