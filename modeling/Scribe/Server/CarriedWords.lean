import Scribe.Server.NaiveOwner
import Scribe.Server.TextEdits

/-! The words of a line when some items leave the page and texts change.

The words of a line are determined by who owns them and by a strict order, so they
can be compared as sets. Items that keep their place and their order keep the owner
of every word, since an owner is the first line that contains a centre.
-/

set_option autoImplicit false

namespace Scribe.Server

open Iiif List

/-! ## The words of a line as a set -/

def readBefore (a b : Located) : Prop :=
  a.box.x1 < b.box.x1 ∨ (a.box.x1 = b.box.x1 ∧
    (a.box.y1 < b.box.y1 ∨ (a.box.y1 = b.box.y1 ∧ a.index < b.index)))

instance : Std.Asymm readBefore := ⟨fun a b => by unfold readBefore; omega⟩

instance : Std.Irrefl readBefore := ⟨fun a => by unfold readBefore; omega⟩

def OwnedBy (items : List Json) (eligible : Option (List String)) (word : Object) (box : Box)
    (lineID : String) : Prop :=
  ∃ line, NaiveOwner items eligible line word box ∧ annStringValue line "id" = lineID

section
variable {items : List Json} {eligible : Option (List String)} {lineID : String}

theorem mem_sweptWords {word : PositionedWord} :
    word ∈ (Assoc.get (assignSpatialWordsToLines items eligible) lineID).getD [] ↔
      ∃ anno box, SpatialAt items "word" word.index anno box ∧ word = ⟨word.index, box.x1, anno⟩ ∧
        OwnedBy items eligible anno box lineID :=
  mem_getD_assignVisiting (.refl _)

theorem mem_wordsOfLine {word : Located} :
    word ∈ wordsOfLine (assignSpatialWordsToLines items eligible) lineID ↔
      SpatialAt items "word" word.index word.anno word.box ∧
      OwnedBy items eligible word.anno word.box lineID := by
  rw [wordsOfLine, locatedWords, sortWithinLine, mem_insertionSort, mem_filterMap]
  constructor
  · rintro ⟨positioned, member, located⟩
    obtain ⟨anno, box, place, same, owned⟩ := mem_sweptWords.mp member
    rw [same] at located
    simp only [locateWord?, place.parsed, Option.some.injEq] at located
    subst located
    exact ⟨place, owned⟩
  · rintro ⟨place, owned⟩
    refine ⟨⟨word.index, word.box.x1, word.anno⟩,
      mem_sweptWords.mpr ⟨word.anno, word.box, place, rfl, owned⟩, ?_⟩
    simp only [locateWord?, place.parsed]

theorem wordsOfLine_sorted :
    (wordsOfLine (assignSpatialWordsToLines items eligible) lineID).Pairwise readBefore := by
  rw [wordsOfLine_assign]
  have total : Std.Total withinLine := ⟨fun a b => by unfold withinLine; omega⟩
  have trans : IsTrans Located withinLine := ⟨fun a b c => by unfold withinLine; omega⟩
  have inItems : ((spatialWords items).filterMap fun entry =>
      if ownerOf items eligible entry = some lineID then locateWord? entry.2.word else none).Pairwise
        fun a b => a.index < b.index := by
    rw [pairwise_filterMap]
    refine (spatialWords_increasing items).imp ?_
    intro a b less x fromA y fromB
    have index_of : ∀ {entry : String × SpatialWord} {located : Located},
        (if ownerOf items eligible entry = some lineID then locateWord? entry.2.word else none) =
          some located →
          located.index = entry.2.word.index := by
      intro entry located found
      split at found
      · unfold locateWord? at found
        split at found
        · exact congrArg Located.index (Option.some.inj found).symm
        · cases found
      · cases found
    rw [index_of fromA, index_of fromB]
    exact less
  refine (pairwise_insertionSort_stable (r := withinLine) inItems).imp ?_
  rintro a b ⟨le, ties⟩
  unfold withinLine at le ties
  unfold readBefore
  omega

end

/-! ## Lines and words

The sweep compares a level in lower case, other readers compare it under case folding. -/

theorem head_of_lower_fold {text low folded : String} {x y : Char}
    (isLow : Go.lowersTo text low = true) (isFolded : Go.equalFold text folded = true)
    (lowHead : low.toList.head? = some x)
    (foldedHead : (folded.toList.map Go.foldChar).head? = some y) (plainLow : x ∉ ['i', 'k'])
    (plainFolded : y ∉ ['s', 'k']) : x = y := by
  rw [Go.lowersTo, decide_eq_true_eq] at isLow
  rw [Go.equalFold, decide_eq_true_eq] at isFolded
  rw [← isLow, head?_map] at lowHead
  rw [← isFolded, head?_map] at foldedHead
  obtain ⟨first, isFirst, rfl⟩ := Option.map_eq_some_iff.mp lowHead
  rw [isFirst, Option.map_some, Option.some.injEq] at foldedHead
  subst foldedHead
  unfold Go.lowerChar Go.foldChar at *
  split at plainLow
  · exact absurd plainLow (by decide)
  · split at plainLow
    · exact absurd plainLow (by decide)
    · rename_i notDotted notKelvin
      split at plainFolded
      · exact absurd plainFolded (by decide)
      · rename_i notLong
        rw [if_neg notDotted, if_neg notKelvin, if_neg notLong]

theorem word_not_line {anno : Object} (isWord : hasLowerGranularity anno "word" = true) :
    isGranularity anno "line" = false := by
  refine Bool.eq_false_iff.mpr fun isLine => ?_
  have same := head_of_lower_fold (x := 'w') (y := 'l') isWord isLine (by decide) (by decide)
    (by decide) (by decide)
  exact absurd same (by decide)

/-- Items that agree in everything but their bodies. -/
def KeepsPlace (old new : Json) : Prop := old = new ∨ SameButBody old new

/-- The result has the items at the kept positions, in order, and every line is among them. -/
structure Carried (items result : List Json) (kept : List Nat) : Prop where
  increasing : kept.Pairwise (· < ·)
  same : List.Forall₂ (fun position item => ∃ old, items[position]? = some old ∧
    KeepsPlace old item) kept result
  lines : ∀ position line box, SpatialAt items "line" position line box → position ∈ kept

structure SamePlace (a b : Object) : Prop where
  id : annStringValue a "id" = annStringValue b "id"
  level : ∀ granularity, hasLowerGranularity a granularity = hasLowerGranularity b granularity
  box : annotationBox a = annotationBox b
  canvas : extractCanvasURI a = extractCanvasURI b

theorem SamePlace.of_fields {a b : Object}
    (same : ∀ key, "body" ≠ key → Json.field a key = Json.field b key) : SamePlace a b where
  id := annStringValue_congr (same "id" (by decide))
  level granularity := by
    rw [hasLowerGranularity, hasLowerGranularity,
      annStringValue_congr (same "textGranularity" (by decide))]
  box := annotationBox_congr (same "target" (by decide))
  canvas := extractCanvasURI_congr (same "on" (by decide)) (same "target" (by decide))

theorem KeepsPlace.object {a : Object} {new : Json} (keeps : KeepsPlace (.obj a) new) :
    ∃ b, new = .obj b ∧ SamePlace a b := by
  rcases keeps with rfl | ⟨x, b, same, rfl, fields⟩
  · exact ⟨a, rfl, ⟨rfl, fun _ => rfl, rfl, rfl⟩⟩
  · cases same
    exact ⟨b, rfl, .of_fields fields⟩

theorem KeepsPlace.object_right {b : Object} {old : Json} (keeps : KeepsPlace old (.obj b)) :
    ∃ a, old = .obj a ∧ SamePlace a b := by
  rcases keeps with rfl | ⟨a, y, rfl, same, fields⟩
  · exact ⟨b, rfl, ⟨rfl, fun _ => rfl, rfl, rfl⟩⟩
  · cases same
    exact ⟨a, rfl, .of_fields fields⟩

theorem SpatialAt.of_samePlace {items result : List Json} {level : String} {p k : Nat}
    {a b : Object} {box : Box} (at_ : SpatialAt items level p a box) (same : SamePlace a b)
    (here : result[k]? = some (.obj b)) : SpatialAt result level k b box :=
  ⟨here, same.level level ▸ at_.isLevel, same.box ▸ at_.parsed, same.canvas ▸ at_.onCanvas⟩

namespace Carried

variable {items result : List Json} {kept : List Nat}

section
variable (carried : Carried items result kept)
include carried

theorem at_kept {k p : Nat} (isKept : kept[k]? = some p) :
    ∃ old new, items[p]? = some old ∧ result[k]? = some new ∧ KeepsPlace old new := by
  obtain ⟨inside, rfl⟩ := List.getElem?_eq_some_iff.mp isKept
  have inResult : k < result.length := carried.same.length_eq ▸ inside
  obtain ⟨old, listed, keeps⟩ := carried.same.get inside inResult
  exact ⟨old, _, listed, getElem?_eq_getElem inResult, keeps⟩

theorem at_result {k : Nat} {new : Json} (here : result[k]? = some new) :
    ∃ p old, kept[k]? = some p ∧ items[p]? = some old ∧ KeepsPlace old new := by
  have inResult := (List.getElem?_eq_some_iff.mp here).1
  have inside : k < kept.length := carried.same.length_eq ▸ inResult
  have isKept := getElem?_eq_getElem inside
  obtain ⟨old, other, listed, there, keeps⟩ := carried.at_kept isKept
  cases here.symm.trans there
  exact ⟨_, old, isKept, listed, keeps⟩

theorem spatialAt {level : String} {k p : Nat} {a : Object} {box : Box}
    (isKept : kept[k]? = some p) (at_ : SpatialAt items level p a box) :
    ∃ b, SamePlace a b ∧ SpatialAt result level k b box := by
  obtain ⟨old, new, listed, here, keeps⟩ := carried.at_kept isKept
  cases at_.item.symm.trans listed
  obtain ⟨b, rfl, same⟩ := keeps.object
  exact ⟨b, same, at_.of_samePlace same here⟩

theorem spatialAt_result {level : String} {k : Nat} {b : Object} {box : Box}
    (at_ : SpatialAt result level k b box) :
    ∃ p a, kept[k]? = some p ∧ SamePlace a b ∧ SpatialAt items level p a box := by
  obtain ⟨p, old, isKept, listed, keeps⟩ := carried.at_result at_.item
  obtain ⟨a, rfl, same⟩ := keeps.object_right
  exact ⟨p, a, isKept, same, at_.of_samePlace
    ⟨same.id.symm, fun level => (same.level level).symm, same.box.symm, same.canvas.symm⟩ listed⟩

theorem kept_le_iff {j k p q : Nat} (first : kept[j]? = some p) (second : kept[k]? = some q) :
    p ≤ q ↔ j ≤ k := by
  have before : ∀ {j k p q : Nat}, kept[j]? = some p → kept[k]? = some q → j < k → p < q := by
    intro j k p q first second less
    obtain ⟨inJ, rfl⟩ := List.getElem?_eq_some_iff.mp first
    obtain ⟨inK, rfl⟩ := List.getElem?_eq_some_iff.mp second
    exact pairwise_iff_getElem.mp carried.increasing j k inJ inK less
  constructor
  · intro le
    by_contra more
    exact Nat.not_lt.mpr le (before second first (Nat.lt_of_not_le more))
  · intro le
    rcases Nat.lt_or_eq_of_le le with less | rfl
    · exact Nat.le_of_lt (before first second less)
    · exact Nat.le_of_eq (Option.some.inj (first.symm.trans second))

theorem ownedBy_iff {a b : Object} {box : Box} (same : SamePlace a b)
    {lineID : String} : OwnedBy items none a box lineID ↔ OwnedBy result none b box lineID := by
  constructor
  · rintro ⟨line, ⟨p, may, least⟩, rfl⟩
    obtain ⟨lineBox, at_, holds⟩ := may.contains
    obtain ⟨k, isKept⟩ := mem_iff_getElem?.mp (carried.lines p line lineBox at_)
    obtain ⟨line', sameLine, at'⟩ := carried.spatialAt isKept at_
    refine ⟨line', ⟨k, ⟨by simp, ?_, lineBox, at', holds⟩, ?_⟩, sameLine.id.symm⟩
    · rw [← sameLine.canvas, ← same.canvas]
      exact may.sameCanvas
    · intro j other otherMay
      obtain ⟨otherBox, otherAt, otherHolds⟩ := otherMay.contains
      obtain ⟨q, old, otherKept, sameOther, otherPlace⟩ := carried.spatialAt_result otherAt
      refine (carried.kept_le_iff isKept otherKept).mp
        (least q old ⟨by simp, ?_, otherBox, otherPlace, otherHolds⟩)
      rw [sameOther.canvas, same.canvas]
      exact otherMay.sameCanvas
  · rintro ⟨line', ⟨k, may, least⟩, rfl⟩
    obtain ⟨lineBox, at', holds⟩ := may.contains
    obtain ⟨p, line, isKept, sameLine, at_⟩ := carried.spatialAt_result at'
    refine ⟨line, ⟨p, ⟨by simp, ?_, lineBox, at_, holds⟩, ?_⟩, sameLine.id⟩
    · rw [sameLine.canvas, same.canvas]
      exact may.sameCanvas
    · intro q other otherMay
      obtain ⟨otherBox, otherAt, otherHolds⟩ := otherMay.contains
      obtain ⟨j, otherKept⟩ := mem_iff_getElem?.mp (carried.lines q other otherBox otherAt)
      obtain ⟨other', sameOther, otherPlace⟩ := carried.spatialAt otherKept otherAt
      refine (carried.kept_le_iff isKept otherKept).mpr
        (least j other' ⟨by simp, ?_, otherBox, otherPlace, otherHolds⟩)
      rw [← sameOther.canvas, ← same.canvas]
      exact otherMay.sameCanvas

def origin (items : List Json) (kept : List Nat) (word : Located) : Located :=
  ⟨annotationAt items (kept[word.index]?.getD 0), kept[word.index]?.getD 0, word.box⟩

/-- The words of a line in the result are its kept words in their old order. -/
theorem words (lineID : String) :
    (wordsOfLine (assignSpatialWordsToLines result none) lineID).map (origin items kept) =
      (wordsOfLine (assignSpatialWordsToLines items none) lineID).filter (·.index ∈ kept) := by
  have comes : ∀ {k p : Nat} {a b : Object} {box : Box}, kept[k]? = some p →
      items[p]? = some (.obj a) →
      origin items kept ⟨b, k, box⟩ = ⟨a, p, box⟩ := by
    intro k p a b box isKept listed
    simp [origin, isKept, annotationAt, listed]
  refine List.Pairwise.eq_of_mem_iff (r := readBefore) ?_
    (wordsOfLine_sorted.sublist filter_sublist) ?_
  · rw [pairwise_map]
    refine wordsOfLine_sorted.imp_of_mem ?_
    rintro ⟨a, i, boxA⟩ ⟨b, j, boxB⟩ memberA memberB before
    obtain ⟨p, a', keptA, -, placeA⟩ := carried.spatialAt_result (mem_wordsOfLine.mp memberA).1
    obtain ⟨q, b', keptB, -, placeB⟩ := carried.spatialAt_result (mem_wordsOfLine.mp memberB).1
    simp only at keptA keptB
    rw [comes keptA placeA.item, comes keptB placeB.item]
    have ordered := carried.kept_le_iff keptB keptA
    unfold readBefore at before ⊢
    simp only at before ⊢
    omega
  · intro word
    simp only [mem_map, mem_filter, decide_eq_true_eq]
    constructor
    · rintro ⟨⟨b, k, box⟩, member, rfl⟩
      obtain ⟨place, owned⟩ := mem_wordsOfLine.mp member
      obtain ⟨p, a, isKept, same, old⟩ := carried.spatialAt_result place
      simp only at isKept
      rw [comes isKept old.item]
      exact ⟨mem_wordsOfLine.mpr ⟨old, (carried.ownedBy_iff same).mpr owned⟩, mem_of_getElem? isKept⟩
    · rintro ⟨member, isKept⟩
      obtain ⟨place, owned⟩ := mem_wordsOfLine.mp member
      obtain ⟨k, atK⟩ := mem_iff_getElem?.mp isKept
      obtain ⟨b, same, new⟩ := carried.spatialAt atK place
      exact ⟨⟨b, k, word.box⟩, mem_wordsOfLine.mpr ⟨new, (carried.ownedBy_iff same).mp owned⟩,
        comes atK place.item⟩

end

end Carried

end Scribe.Server
