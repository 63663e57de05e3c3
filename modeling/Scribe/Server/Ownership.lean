import Scribe.Data.Coverage
import Scribe.Data.Arrangement
import Scribe.Server.Annotation
import Mathlib.Data.List.Dedup
import Mathlib.Data.List.Pairwise
import Mathlib.Data.List.Perm.Basic
import Mathlib.Data.List.Lattice

/-! Which line owns a word.

A word belongs to the first line, in item order, on its Canvas whose closed box
contains the word's centre. The server computes this by a vertical sweep per
Canvas over an index of the words' horizontal centres; the sweep is modelled as it
is and shown to agree with the plain rule.
-/

set_option autoImplicit false

namespace Scribe.Server

open List

structure PositionedWord where
  index : Nat
  x1 : Nat
  anno : Object
  deriving DecidableEq

structure SpatialLine where
  id : String
  box : Box
  order : Nat
  deriving DecidableEq

structure SpatialWord where
  word : PositionedWord
  centerX : Nat
  centerY : Nat
  deriving DecidableEq

def hasLowerGranularity (anno : Object) (granularity : String) : Bool :=
  Go.lowersTo (Go.trimSpace (annStringValue anno "textGranularity")) granularity

def spatialItem? (item : Json) : Option (Object × String × Box) :=
  match item with
  | .obj anno => match annotationBox anno with
      | .ok box => if extractCanvasURI anno = "" then none else some (anno, extractCanvasURI anno, box)
      | .error _ => none
  | _ => none

def spatialLine? (eligible : Option (List String)) (canvasURI : String) (item : Json × Nat) :
    Option SpatialLine :=
  match spatialItem? item.1 with
  | some (anno, canvas, box) =>
      let id := annStringValue anno "id"
      if canvas = canvasURI ∧ hasLowerGranularity anno "line" ∧ (∀ ids ∈ eligible, id ∈ ids) then
        some ⟨id, box, item.2⟩
      else none
  | none => none

def spatialWord? (item : Json × Nat) : Option (String × SpatialWord) :=
  match spatialItem? item.1 with
  | some (anno, canvas, box) =>
      if hasLowerGranularity anno "word" then
        some (canvas,
          { word := ⟨item.2, box.x1, anno⟩
            centerX := box.x1 + (box.x2 - box.x1) / 2
            centerY := box.y1 + (box.y2 - box.y1) / 2 })
      else none
  | none => none

def spatialLines (items : List Json) (eligible : Option (List String)) (canvasURI : String) :
    List SpatialLine :=
  items.zipIdx.filterMap (spatialLine? eligible canvasURI)

def spatialWords (items : List Json) : List (String × SpatialWord) :=
  items.zipIdx.filterMap spatialWord?

/-! ## The sweep -/

def compactSortedInts : List Nat → List Nat
  | a :: b :: rest => if a = b then compactSortedInts (b :: rest)
    else a :: compactSortedInts (b :: rest)
  | values => values

def searchInts (values : List Nat) (value : Nat) : Nat := values.findIdx (value ≤ ·)

def searchAbove (values : List Nat) (value : Nat) : Nat := values.findIdx (value < ·)

structure LineEnd where
  line : Nat
  y2 : Nat

structure Sweep where
  pending : List (SpatialLine × Nat)
  coverage : Coverage.Index
  ending : List LineEnd

/-- Start every pending line that begins at or above the current height. -/
def admitLines (coordinates : List Nat) (centerY : Nat) :
    List (SpatialLine × Nat) → Coverage.Index → List LineEnd → Sweep
  | [], coverage, ending => ⟨[], coverage, ending⟩
  | (line, position) :: rest, coverage, ending =>
      if line.box.y1 ≤ centerY then
        let left := searchInts coordinates line.box.x1
        let after := searchAbove coordinates line.box.x2
        if left < after then
          admitLines coordinates centerY rest (coverage.add ⟨position, line.order⟩ left (after - 1))
            (ending.orderedInsert (fun a b => a.y2 ≤ b.y2) ⟨position, line.box.y2⟩)
        else admitLines coordinates centerY rest coverage ending
      else ⟨(line, position) :: rest, coverage, ending⟩

/-- End every line whose last row lies above the current height. -/
def retireLines (centerY : Nat) : List LineEnd → Coverage.Index → Coverage.Index × List LineEnd
  | [], coverage => (coverage, [])
  | last :: rest, coverage =>
      if last.y2 < centerY then retireLines centerY rest (coverage.remove last.line)
      else (coverage, last :: rest)

def sweepWord (coordinates : List Nat) (state : Sweep) (word : SpatialWord) :
    Sweep × Option Coverage.Entry :=
  let admitted := admitLines coordinates word.centerY state.pending state.coverage state.ending
  let (coverage, ending) := retireLines word.centerY admitted.ending admitted.coverage
  let (coverage, found) := coverage.owner (searchInts coordinates word.centerX)
  (⟨admitted.pending, coverage, ending⟩, found)

def sweepWords (coordinates : List Nat) (lines : List SpatialLine) :
    Sweep → List SpatialWord → List (String × PositionedWord)
  | _, [] => []
  | state, word :: rest =>
      let (state, found) := sweepWord coordinates state word
      match found.bind fun entry => lines[entry.line]? with
      | some line => (line.id, word.word) :: sweepWords coordinates lines state rest
      | none => sweepWords coordinates lines state rest

def lineBefore (a b : SpatialLine) : Prop :=
  a.box.y1 < b.box.y1 ∨ (a.box.y1 = b.box.y1 ∧ a.order ≤ b.order)

instance : DecidableRel lineBefore := fun _ _ => inferInstanceAs (Decidable (_ ∨ _))

def wordBefore (a b : SpatialWord) : Prop :=
  a.centerY < b.centerY ∨ (a.centerY = b.centerY ∧ a.word.index ≤ b.word.index)

instance : DecidableRel wordBefore := fun _ _ => inferInstanceAs (Decidable (_ ∨ _))

def assignOnCanvas (lines : List SpatialLine) (words : List SpatialWord) :
    List (String × PositionedWord) :=
  if lines = [] ∨ words = [] then []
  else
    let coordinates := compactSortedInts ((words.map (·.centerX)).insertionSort (· ≤ ·))
    let lines := lines.insertionSort lineBefore
    let words := words.insertionSort wordBefore
    sweepWords coordinates lines ⟨lines.zipIdx, Coverage.Index.empty coordinates.length, []⟩ words

def appendTo {α : Type} (groups : List (String × List α)) (entry : String × α) :
    List (String × List α) :=
  Assoc.set groups entry.1 ((Assoc.get groups entry.1).getD [] ++ [entry.2])

def assignedPairs (items : List Json) (eligible : Option (List String)) :
    List (String × PositionedWord) :=
  let words := spatialWords items
  (words.map (·.1)).dedup.flatMap fun canvasURI =>
    assignOnCanvas (spatialLines items eligible canvasURI) ((words.filter (·.1 = canvasURI)).map (·.2))

/-- Words by the identifier of the line that owns them. `none` admits every line. -/
def assignSpatialWordsToLines (items : List Json) (eligible : Option (List String)) :
    List (String × List PositionedWord) :=
  ((assignedPairs items eligible).foldl appendTo []).map fun group =>
    (group.1, group.2.insertionSort fun a b => a.x1 ≤ b.x1)

/-! ## Words with their boxes -/

def locateWord? (word : PositionedWord) : Option Located :=
  match annotationBox word.anno with
  | .ok box => some ⟨word.anno, word.index, box⟩
  | .error _ => none

/-- Horizontal order within a line, then vertical, then item order. -/
def withinLine (a b : Located) : Prop :=
  a.box.x1 < b.box.x1 ∨ (a.box.x1 = b.box.x1 ∧
    (a.box.y1 < b.box.y1 ∨ (a.box.y1 = b.box.y1 ∧ a.index ≤ b.index)))

instance : DecidableRel withinLine := fun _ _ => inferInstanceAs (Decidable (_ ∨ _))

def sortWithinLine (words : List Located) : List Located := words.insertionSort withinLine

def locatedWords (positioned : List PositionedWord) : List Located :=
  sortWithinLine (positioned.filterMap locateWord?)

def wordsOfLine (assigned : List (String × List PositionedWord)) (lineID : String) : List Located :=
  locatedWords ((Assoc.get assigned lineID).getD [])

/-! ## The sweep finds the first containing line -/

/-- The closed box of a line contains the centre of a word. -/
def SpatialLine.contains (line : SpatialLine) (word : SpatialWord) : Bool :=
  line.box.x1 ≤ word.centerX && word.centerX ≤ line.box.x2 &&
    line.box.y1 ≤ word.centerY && word.centerY ≤ line.box.y2

section
variable {values : List Nat} (increasing : values.Pairwise (· < ·))
include increasing

theorem getElem_findIdx_le {x : Nat} (member : x ∈ values) :
    ∃ inside : searchInts values x < values.length, values.get ⟨searchInts values x, inside⟩ = x := by
  obtain ⟨position, inside, same⟩ := getElem_of_mem member
  have bound : searchInts values x < values.length :=
    findIdx_lt_length_of_exists ⟨x, member, by simp⟩
  refine ⟨bound, ?_⟩
  have reached : x ≤ values[searchInts values x] := of_decide_eq_true (findIdx_getElem (w := bound))
  have first : searchInts values x ≤ position := by
    by_contra later
    have skipped := not_of_lt_findIdx (p := fun value => decide (x ≤ value)) (Nat.lt_of_not_le later)
    simp [same] at skipped
  rcases Nat.lt_or_eq_of_le first with before | equal
  · have less := pairwise_iff_getElem.mp increasing _ _ bound inside before
    omega
  · simp only [get_eq_getElem, equal, same]

theorem searchInts_le_iff {x a : Nat} (member : x ∈ values) :
    searchInts values a ≤ searchInts values x ↔ a ≤ x := by
  obtain ⟨inside, same⟩ := getElem_findIdx_le increasing member
  simp only [get_eq_getElem] at same
  constructor
  · intro le
    have bound : searchInts values a < values.length := by omega
    have reached : a ≤ values[searchInts values a] :=
      of_decide_eq_true (findIdx_getElem (w := bound))
    rcases Nat.lt_or_eq_of_le le with before | equal
    · have less := pairwise_iff_getElem.mp increasing _ _ bound inside before
      omega
    · simp only [equal, same] at reached
      omega
  · intro below
    by_contra later
    have skipped := not_of_lt_findIdx (p := fun value => decide (a ≤ value)) (Nat.lt_of_not_le later)
    simp [same] at skipped
    omega

theorem lt_searchAbove_iff {x a : Nat} (member : x ∈ values) :
    searchInts values x < searchAbove values a ↔ x ≤ a := by
  obtain ⟨inside, same⟩ := getElem_findIdx_le increasing member
  simp only [get_eq_getElem] at same
  constructor
  · intro before
    have skipped := not_of_lt_findIdx (p := fun value => decide (a < value)) before
    simpa [same] using skipped
  · intro below
    by_contra reached
    have bound : searchAbove values a < values.length := by omega
    have above : a < values[searchAbove values a] :=
      of_decide_eq_true (findIdx_getElem (w := bound))
    rcases Nat.lt_or_eq_of_le (Nat.le_of_not_lt reached) with before | equal
    · have less := pairwise_iff_getElem.mp increasing _ _ bound inside before
      omega
    · simp only [equal, same] at above
      omega

end

/-- The range of coordinates a line covers, if there is one. -/
def lineSpan? (coordinates : List Nat) (line : SpatialLine × Nat) : Option Coverage.Span :=
  let left := searchInts coordinates line.1.box.x1
  let after := searchAbove coordinates line.1.box.x2
  if left < after then some ⟨⟨line.2, line.1.order⟩, left, after - 1⟩ else none

theorem lineSpan?_line {coordinates : List Nat} {line : SpatialLine × Nat} {span : Coverage.Span}
    (found : lineSpan? coordinates line = some span) : span.entry = ⟨line.2, line.1.order⟩ := by
  simp only [lineSpan?] at found
  split at found
  · cases found; rfl
  · cases found

theorem lineSpan?_contains {coordinates : List Nat} (increasing : coordinates.Pairwise (· < ·))
    (line : SpatialLine × Nat) {x : Nat} (member : x ∈ coordinates) :
    (∃ span, lineSpan? coordinates line = some span ∧ span.Contains (searchInts coordinates x)) ↔
      line.1.box.x1 ≤ x ∧ x ≤ line.1.box.x2 := by
  rw [← searchInts_le_iff increasing member, ← lt_searchAbove_iff increasing member]
  simp only [lineSpan?, Coverage.Span.Contains]
  split
  · simp only [Option.some.injEq, exists_eq_left']
    omega
  · rename_i empty
    refine ⟨by simp, fun inside => absurd (Nat.lt_of_le_of_lt inside.1 inside.2) empty⟩

theorem searchAbove_le (values : List Nat) (value : Nat) : searchAbove values value ≤ values.length :=
  findIdx_le_length

def LineEnd.of (line : SpatialLine × Nat) : LineEnd := ⟨line.2, line.1.box.y2⟩

/-- What a sweep holds after it has admitted some lines and retired those that end above `low`. -/
structure SweepHolds (coordinates : List Nat) (admitted : List (SpatialLine × Nat)) (low : Nat)
    (coverage : Coverage.Index) (ending : List LineEnd) (spans : List Coverage.Span) : Prop where
  tracks : Coverage.Tracks coverage spans
  room : coordinates.length ≤ coverage.size
  spans_iff : ∀ span, span ∈ spans ↔ ∃ line ∈ admitted, lineSpan? coordinates line = some span
  active_iff : ∀ position, coverage.active position = true ↔ ∃ last ∈ ending, last.line = position
  ending_iff : ∀ last, last ∈ ending ↔ ∃ line ∈ admitted,
    (lineSpan? coordinates line).isSome = true ∧ last = LineEnd.of line ∧ low ≤ line.1.box.y2
  sorted : ending.Pairwise fun a b => a.y2 ≤ b.y2

section
variable {coordinates : List Nat}

theorem SweepHolds.enter {admitted : List (SpatialLine × Nat)} {low : Nat} {coverage : Coverage.Index}
    {ending : List LineEnd} {spans : List Coverage.Span}
    (holds : SweepHolds coordinates admitted low coverage ending spans) (line : SpatialLine × Nat)
    (fresh : ∀ other ∈ admitted, other.2 ≠ line.2) (visible : low ≤ line.1.box.y2) :
    (∀ span, lineSpan? coordinates line = some span →
      SweepHolds coordinates (line :: admitted) low
        (coverage.add ⟨line.2, line.1.order⟩ span.left span.right)
        (ending.orderedInsert (fun a b => a.y2 ≤ b.y2) (LineEnd.of line)) (span :: spans)) ∧
    (lineSpan? coordinates line = none → SweepHolds coordinates (line :: admitted) low coverage
      ending spans) := by
  constructor
  · intro span found
    have entry := lineSpan?_line found
    have bounds : span.left ≤ span.right ∧ span.right < coverage.size := by
      have limit := searchAbove_le coordinates line.1.box.x2
      have room := holds.room
      simp only [lineSpan?] at found
      split at found
      · cases found
        constructor <;> simp only <;> omega
      · cases found
    -- A span names its line by its position, so this one is not among the spans yet.
    have spanFresh : ∀ other ∈ spans, other.entry.line ≠ span.entry.line := by
      intro other member
      obtain ⟨owner, held, same⟩ := (holds.spans_iff other).mp member
      rw [lineSpan?_line same, entry]
      exact fresh owner held
    have whole : span = ⟨⟨line.2, line.1.order⟩, span.left, span.right⟩ := by rw [← entry]
    have tracks := holds.tracks.add span.entry bounds.1 bounds.2 spanFresh
    rw [entry, ← whole] at tracks
    have active : (coverage.add ⟨line.2, line.1.order⟩ span.left span.right).active =
        Function.update coverage.active line.2 true := by simp [Coverage.Index.add, bounds.1]
    have size : (coverage.add ⟨line.2, line.1.order⟩ span.left span.right).size = coverage.size := by
      simp [Coverage.Index.add, bounds.1]
    refine ⟨tracks, by rw [size]; exact holds.room, ?_, ?_, ?_, ?_⟩
    · intro other
      simp only [mem_cons, holds.spans_iff, exists_eq_or_imp, found, Option.some.injEq]
      exact or_congr_left eq_comm
    · intro position
      rw [active]
      by_cases same : position = line.2
      · subst same; simp [LineEnd.of]
      · simp [same, holds.active_iff, LineEnd.of, Ne.symm same]
    · intro last
      simp only [mem_orderedInsert, mem_cons, exists_eq_or_imp, found, holds.ending_iff,
        Option.isSome_some, true_and, visible, and_true]
    · have trans : IsTrans LineEnd (fun a b => a.y2 ≤ b.y2) := ⟨fun _ _ _ => le_trans⟩
      exact List.Pairwise.orderedInsert _ _ holds.sorted
  -- A line that covers no coordinate is admitted without a span and without an end.
  · intro none
    refine ⟨holds.tracks, holds.room, ?_, holds.active_iff, ?_, holds.sorted⟩
    · simp [holds.spans_iff, none]
    · simp [holds.ending_iff, none]

theorem admitLines_holds (height : Nat) {low : Nat} (pending : List (SpatialLine × Nat))
    {admitted : List (SpatialLine × Nat)} {coverage : Coverage.Index} {ending : List LineEnd}
    {spans : List Coverage.Span} (holds : SweepHolds coordinates admitted low coverage ending spans)
    (distinct : ((admitted.reverse ++ pending).map Prod.snd).Nodup)
    (sorted : pending.Pairwise fun a b => a.1.box.y1 ≤ b.1.box.y1)
    (visible : ∀ line ∈ pending, low ≤ line.1.box.y2) :
    ∃ started rest spans', pending = started ++ rest ∧
      (admitLines coordinates height pending coverage ending).pending = rest ∧
      (∀ line ∈ started, line.1.box.y1 ≤ height) ∧ (∀ line ∈ rest, height < line.1.box.y1) ∧
      SweepHolds coordinates (started.reverse ++ admitted) low
        (admitLines coordinates height pending coverage ending).coverage
        (admitLines coordinates height pending coverage ending).ending spans' := by
  induction pending generalizing admitted coverage ending spans with
  | nil => exact ⟨[], [], spans, rfl, rfl, by simp, by simp, by simpa [admitLines] using holds⟩
  | cons line rest ih =>
    obtain ⟨first, position⟩ := line
    obtain ⟨after, sorted⟩ := pairwise_cons.mp sorted
    by_cases starts : first.box.y1 ≤ height
    · have fresh : ∀ other ∈ admitted, other.2 ≠ position := by
        intro other member same
        simp only [map_append, map_cons, nodup_append] at distinct
        exact distinct.2.2 other.2 (mem_map.mpr ⟨other, by simpa using member, rfl⟩) position
          mem_cons_self same
      have moved : (((first, position) :: admitted).reverse ++ rest).map Prod.snd =
          (admitted.reverse ++ (first, position) :: rest).map Prod.snd := by simp
      have later : ∀ line ∈ rest, low ≤ line.1.box.y2 := fun line member =>
        visible line (mem_cons_of_mem _ member)
      obtain ⟨wide, narrow⟩ := holds.enter (first, position) fresh (visible _ mem_cons_self)
      -- A line between two coordinates covers none and is only counted.
      cases found : lineSpan? coordinates (first, position) with
      | none =>
        have empty : ¬ searchInts coordinates first.box.x1 < searchAbove coordinates first.box.x2 := by
          intro filled
          simp [lineSpan?, filled] at found
        obtain ⟨started, rest', spans', split, left, before, beyond, kept⟩ :=
          ih (narrow found) (by rw [moved]; exact distinct) sorted later
        refine ⟨(first, position) :: started, rest', spans', by simp [split], ?_, ?_, beyond, ?_⟩
        · simpa [admitLines, starts, empty] using left
        · simpa [starts] using before
        · simpa [admitLines, starts, empty] using kept
      | some span =>
        have filled : searchInts coordinates first.box.x1 < searchAbove coordinates first.box.x2 := by
          by_contra empty
          simp [lineSpan?, empty] at found
        have ends : span.left = searchInts coordinates first.box.x1 ∧
            span.right = searchAbove coordinates first.box.x2 - 1 := by
          simp only [lineSpan?, filled, if_true, Option.some.injEq] at found
          subst found
          exact ⟨rfl, rfl⟩
        obtain ⟨started, rest', spans', split, left, before, beyond, kept⟩ :=
          ih (wide span found) (by rw [moved]; exact distinct) sorted later
        simp only [ends.1, ends.2] at left kept
        refine ⟨(first, position) :: started, rest', spans', by simp [split], ?_, ?_, beyond, ?_⟩
        · simpa [admitLines, starts, filled, LineEnd.of] using left
        · simpa [starts] using before
        · simpa [admitLines, starts, filled, LineEnd.of] using kept
    · refine ⟨[], (first, position) :: rest, spans, rfl, by simp [admitLines, starts], by simp, ?_,
        by simpa [admitLines, starts] using holds⟩
      intro line member
      rcases mem_cons.mp member with rfl | member
      · exact Nat.lt_of_not_le starts
      · have le := after line member
        simp only at le
        omega

theorem retireLines_spec (height : Nat) (ending : List LineEnd) (coverage : Coverage.Index)
    {spans : List Coverage.Span} (tracks : Coverage.Tracks coverage spans) :
    Coverage.Tracks (retireLines height ending coverage).1 spans ∧
    (retireLines height ending coverage).1.size = coverage.size ∧
    (retireLines height ending coverage).2 = ending.dropWhile (fun last => last.y2 < height) ∧
    (∀ position, (retireLines height ending coverage).1.active position = true ↔
      coverage.active position = true ∧
        ∀ last ∈ ending.takeWhile (fun last => last.y2 < height), last.line ≠ position) := by
  induction ending generalizing coverage with
  | nil => simpa [retireLines] using tracks
  | cons last rest ih =>
    by_cases done : last.y2 < height
    · obtain ⟨kept, size, left, active⟩ := ih (coverage.remove last.line) (tracks.remove last.line)
      simp only [retireLines, done, if_true, decide_true, dropWhile_cons_of_pos,
        takeWhile_cons_of_pos, forall_mem_cons]
      refine ⟨kept, size, left, fun position => ?_⟩
      rw [active]
      by_cases same : position = last.line
      · subst same; simp [Coverage.Index.remove]
      · simp [Coverage.Index.remove, same, Ne.symm same]
    · simpa [retireLines, done] using tracks

theorem SweepHolds.retire {admitted : List (SpatialLine × Nat)} {low height : Nat}
    {coverage : Coverage.Index} {ending : List LineEnd} {spans : List Coverage.Span}
    (holds : SweepHolds coordinates admitted low coverage ending spans) (rises : low ≤ height)
    (determined : ∀ a ∈ admitted, ∀ b ∈ admitted, a.2 = b.2 → a = b) :
    SweepHolds coordinates admitted height (retireLines height ending coverage).1
      (retireLines height ending coverage).2 spans := by
  obtain ⟨tracks, size, left, active⟩ := retireLines_spec height ending coverage holds.tracks
  have split :=
    takeWhile_append_dropWhile (p := fun last : LineEnd => decide (last.y2 < height)) (l := ending)
  have low_or : ∀ last ∈ ending, last ∈ ending.dropWhile (fun last => last.y2 < height) ↔
      height ≤ last.y2 := by
    intro last member
    constructor
    · intro kept
      -- The first kept line reaches the height and the rest end no earlier.
      have tail :=
        holds.sorted.sublist (dropWhile_sublist fun last : LineEnd => decide (last.y2 < height))
      cases remaining : ending.dropWhile (fun last => last.y2 < height) with
      | nil => simp [remaining] at kept
      | cons first rest =>
        have reached := head?_dropWhile_not (fun last : LineEnd => decide (last.y2 < height)) ending
        rw [remaining] at kept tail reached
        have above : height ≤ first.y2 := by simpa using reached
        rcases mem_cons.mp kept with rfl | kept
        · exact above
        · exact above.trans (rel_of_pairwise_cons tail kept)
    · intro reaches
      rw [← split, mem_append] at member
      rcases member with gone | kept
      · have short := mem_takeWhile_imp gone
        simp only [decide_eq_true_eq] at short
        omega
      · exact kept
  have inside : ∀ last, last ∈ ending.dropWhile (fun last => last.y2 < height) → last ∈ ending :=
    fun last member => (dropWhile_sublist _).subset member
  refine ⟨tracks, by rw [size]; exact holds.room, holds.spans_iff, ?_, ?_, ?_⟩
  · intro position
    rw [active, left, holds.active_iff]
    constructor
    · rintro ⟨⟨last, member, same⟩, notGone⟩
      refine ⟨last, ?_, same⟩
      have either := member
      rw [← split, mem_append] at either
      exact either.resolve_left fun gone => notGone last gone same
    · rintro ⟨last, member, same⟩
      refine ⟨⟨last, inside last member, same⟩, ?_⟩
      intro other gone equal
      have otherMember : other ∈ ending := (takeWhile_sublist _).subset gone
      obtain ⟨a, heldA, _, rfl, _⟩ := (holds.ending_iff last).mp (inside last member)
      obtain ⟨b, heldB, _, rfl, _⟩ := (holds.ending_iff other).mp otherMember
      have one : b = a :=
        determined b heldB a heldA (by simpa [LineEnd.of] using equal.trans same.symm)
      have short := mem_takeWhile_imp gone
      have reaches := (low_or _ (inside _ member)).mp member
      simp only [decide_eq_true_eq, one] at short
      omega
  · intro last
    rw [left]
    constructor
    · intro member
      have reaches := (low_or last (inside last member)).mp member
      obtain ⟨line, held, wide, rfl, _⟩ := (holds.ending_iff last).mp (inside last member)
      exact ⟨line, held, wide, rfl, reaches⟩
    · rintro ⟨line, held, wide, rfl, reaches⟩
      have member :=
        (holds.ending_iff (LineEnd.of line)).mpr ⟨line, held, wide, rfl, rises.trans reaches⟩
      exact (low_or _ member).mpr reaches
  · rw [left]
    exact holds.sorted.sublist (dropWhile_sublist _)

/-- The state of a sweep over sorted lines at a height. -/
structure SweepAt (coordinates : List Nat) (lines : List SpatialLine) (low : Nat)
    (state : Sweep) : Prop where
  held : ∃ admitted spans, lines.zipIdx = admitted.reverse ++ state.pending ∧
    SweepHolds coordinates admitted low state.coverage state.ending spans ∧
    ∀ line ∈ admitted, line.1.box.y1 ≤ low
  visible : ∀ line ∈ state.pending, low ≤ line.1.box.y2

def IsFirstContaining (lines : List SpatialLine) (word : SpatialWord)
    (found : Option SpatialLine) : Prop :=
  (∀ line, found = some line → line ∈ lines ∧ line.contains word = true) ∧
  (∀ line ∈ lines, line.contains word = true → ∃ first, found = some first ∧ first.order ≤ line.order)

/-- One step of the sweep finds the first line that contains the word. -/
theorem sweepWord_spec (increasing : coordinates.Pairwise (· < ·)) {lines : List SpatialLine}
    (sorted : lines.Pairwise lineBefore) (upright : ∀ line ∈ lines, line.box.y1 ≤ line.box.y2)
    {low : Nat} {state : Sweep} (state_at : SweepAt coordinates lines low state) (word : SpatialWord)
    (rises : low ≤ word.centerY) (member : word.centerX ∈ coordinates) :
    SweepAt coordinates lines word.centerY (sweepWord coordinates state word).1 ∧
    IsFirstContaining lines word ((sweepWord coordinates state word).2.bind fun entry =>
      lines[entry.line]?) := by
  obtain ⟨admitted, spans, all, holds, begun⟩ := state_at.held
  have distinct : ((admitted.reverse ++ state.pending).map Prod.snd).Nodup := by
    rw [← all, zipIdx_map_snd]
    exact nodup_range'
  have heights : state.pending.Pairwise fun a b => a.1.box.y1 ≤ b.1.box.y1 := by
    have whole : (lines.zipIdx.map Prod.fst).Pairwise lineBefore := by rwa [zipIdx_map_fst]
    rw [all, map_append, pairwise_append] at whole
    refine (pairwise_map.mp whole.2.1).imp ?_
    rintro a b (less | ⟨same, _⟩) <;> omega
  -- Lines that begin up to the word's centre enter; then those that end above it leave.
  obtain ⟨started, rest, spans', split, left, before, beyond, kept⟩ :=
    admitLines_holds word.centerY state.pending holds distinct heights state_at.visible
  have whole : lines.zipIdx = (started.reverse ++ admitted).reverse ++ rest := by
    rw [all, split]; simp
  have position : ∀ line ∈ started.reverse ++ admitted, lines[line.2]? = some line.1 := by
    intro line inside
    apply mem_zipIdx_iff_getElem?.mp
    rw [whole]
    exact mem_append_left _ (mem_reverse.mpr inside)
  have determined : ∀ a ∈ started.reverse ++ admitted, ∀ b ∈ started.reverse ++ admitted,
      a.2 = b.2 → a = b := by
    intro a insideA b insideB same
    have lineA := position a insideA
    rw [same, position b insideB] at lineA
    exact Prod.ext (Option.some.inj lineA).symm same
  have retired := kept.retire rises determined
  have inRange : searchInts coordinates word.centerX <
      (retireLines word.centerY (admitLines coordinates word.centerY state.pending state.coverage
        state.ending).ending
        (admitLines coordinates word.centerY state.pending state.coverage
            state.ending).coverage).1.size :=
    lt_of_lt_of_le (findIdx_lt_length_of_exists ⟨_, member, by simp⟩) retired.room
  -- The query at the word's coordinate: least order among the lines that are active there.
  obtain ⟨tracks, active, size, origin, least⟩ := retired.tracks.owner inRange
  refine ⟨⟨⟨started.reverse ++ admitted, spans', ?_, ?_, ?_⟩, ?_⟩, ?_, ?_⟩
  · simpa [sweepWord, left] using whole
  · refine ⟨tracks, ?_, retired.spans_iff, ?_, retired.ending_iff, retired.sorted⟩
    · simpa [sweepWord, size] using retired.room
    · intro place
      simpa [sweepWord, active] using retired.active_iff place
  · intro line inside
    rcases mem_append.mp inside with fresh | old
    · exact before line (mem_reverse.mp fresh)
    · exact (begun line old).trans rises
  · intro line waiting
    have waits : line ∈ rest := by simpa [sweepWord, left] using waiting
    have inside : line.1 ∈ lines := by
      have listed := mem_zipIdx_iff_getElem?.mp (whole ▸ mem_append_right _ waits)
      exact mem_of_getElem? listed
    have above := beyond line waits
    have tall := upright line.1 inside
    omega
  -- What the query answers contains the word: across by its span, down because it was not retired.
  · intro line found
    obtain ⟨entry, chosen, atLine⟩ := Option.bind_eq_some_iff.mp found
    obtain ⟨alive, span, held, same, contains⟩ := origin entry chosen
    obtain ⟨owner, inside, isSpan⟩ := (retired.spans_iff span).mp held
    have name : entry.line = owner.2 := by rw [← same, lineSpan?_line isSpan]
    have isOwner : line = owner.1 := by
      rw [name, position owner inside] at atLine
      exact (Option.some.inj atLine).symm
    obtain ⟨last, ends, sameLine⟩ := (retired.active_iff entry.line).mp alive
    obtain ⟨other, insideOther, _, rfl, reaches⟩ := (retired.ending_iff last).mp ends
    have one : other = owner :=
      determined other insideOther owner inside (by simpa [LineEnd.of, name] using sameLine)
    subst one
    have across := (lineSpan?_contains increasing other member).mp ⟨span, isSpan, contains⟩
    have begins : other.1.box.y1 ≤ word.centerY := by
      rcases mem_append.mp inside with fresh | old
      · exact before other (mem_reverse.mp fresh)
      · exact (begun other old).trans rises
    refine ⟨mem_of_getElem? atLine, ?_⟩
    rw [isOwner]
    simp [SpatialLine.contains, across, begins, reaches]
  -- Every line that contains the word has entered, is active and was compared.
  · intro line inLines contains
    simp only [SpatialLine.contains, Bool.and_eq_true, decide_eq_true_eq] at contains
    obtain ⟨place, bound, isLine⟩ := getElem_of_mem inLines
    have entryLine : (line, place) ∈ lines.zipIdx :=
      mem_zipIdx_iff_getElem?.mpr (by simp [bound, isLine])
    have inside : (line, place) ∈ started.reverse ++ admitted := by
      rw [whole, mem_append, mem_reverse] at entryLine
      refine entryLine.resolve_right fun waits => ?_
      have above := beyond _ waits
      simp only at above
      omega
    obtain ⟨span, isSpan, spans_⟩ := (lineSpan?_contains increasing (line, place) member).mpr
      ⟨contains.1.1.1, contains.1.1.2⟩
    have alive := (retired.active_iff place).mpr ⟨LineEnd.of (line, place),
      (retired.ending_iff _).mpr ⟨_, inside, by simp [isSpan], rfl, contains.2⟩, rfl⟩
    have entry := lineSpan?_line isSpan
    obtain ⟨chosen, found, le⟩ := least span ((retired.spans_iff span).mpr ⟨_, inside, isSpan⟩)
      (by rw [entry]; exact alive) spans_
    obtain ⟨_, span', held', same', _⟩ := origin chosen found
    obtain ⟨owner, insideOwner, isSpan'⟩ := (retired.spans_iff span').mp held'
    have chosenEntry : chosen = ⟨owner.2, owner.1.order⟩ := by rw [← same', lineSpan?_line isSpan']
    refine ⟨owner.1, ?_, ?_⟩
    · apply Option.bind_eq_some_iff.mpr
      exact ⟨chosen, found, by rw [chosenEntry]; exact position owner insideOwner⟩
    · rw [chosenEntry, entry] at le
      exact le

theorem IsFirstContaining.eq_find? {lines inOrder : List SpatialLine} {word : SpatialWord}
    {found : Option SpatialLine} (first : IsFirstContaining lines word found)
    (perm : lines.Perm inOrder) (ordered : inOrder.Pairwise fun a b => a.order < b.order) :
    found = inOrder.find? (·.contains word) := by
  cases searched : inOrder.find? (·.contains word) with
  | none =>
    cases found with
    | none => rfl
    | some line =>
      obtain ⟨member, contains⟩ := first.1 line rfl
      exact absurd contains (find?_eq_none.mp searched line (perm.mem_iff.mp member))
  | some line =>
    obtain ⟨contains, before, after, split, skipped⟩ := find?_eq_some_iff_append.mp searched
    have member : line ∈ inOrder := by simp [split]
    obtain ⟨chosen, same, le⟩ := first.2 line (perm.mem_iff.mpr member) contains
    obtain ⟨chosenMember, chosenContains⟩ := first.1 chosen same
    rw [same]
    have place := perm.mem_iff.mp chosenMember
    rw [split] at place ordered
    rcases mem_append.mp place with early | late
    · exact absurd chosenContains (by simpa using skipped chosen early)
    · rcases mem_cons.mp late with rfl | late
      · rfl
      · have less := rel_of_pairwise_cons (pairwise_append.mp ordered).2.1 late
        omega

theorem sweepWords_eq (increasing : coordinates.Pairwise (· < ·)) {lines inOrder : List SpatialLine}
    (sorted : lines.Pairwise lineBefore) (upright : ∀ line ∈ lines, line.box.y1 ≤ line.box.y2)
    (perm : lines.Perm inOrder) (ordered : inOrder.Pairwise fun a b => a.order < b.order)
    (words : List SpatialWord) (rising : words.Pairwise fun a b => a.centerY ≤ b.centerY)
    (members : ∀ word ∈ words, word.centerX ∈ coordinates) {low : Nat} {state : Sweep}
    (state_at : SweepAt coordinates lines low state) (above : ∀ word ∈ words, low ≤ word.centerY) :
    sweepWords coordinates lines state words =
      words.filterMap fun word => (inOrder.find? (·.contains word)).map fun line =>
        (line.id, word.word) := by
  induction words generalizing low state with
  | nil => rfl
  | cons word rest ih =>
    obtain ⟨next, first⟩ := sweepWord_spec increasing sorted upright state_at word
      (above word mem_cons_self) (members word mem_cons_self)
    obtain ⟨after, rising⟩ := pairwise_cons.mp rising
    have tail := ih rising (fun w inside => members w (mem_cons_of_mem _ inside)) next after
    have found := first.eq_find? perm ordered
    simp only [sweepWords]
    rw [found, tail]
    cases searched : inOrder.find? (·.contains word) with
    | none => simp [searched]
    | some line => simp [searched]

theorem compactSortedInts_spec (values : List Nat) (sorted : values.Pairwise (· ≤ ·)) :
    (compactSortedInts values).Pairwise (· < ·) ∧ ∀ value, value ∈ compactSortedInts values ↔
      value ∈ values := by
  fun_induction compactSortedInts values with
  | case1 a rest ih =>
    obtain ⟨increasing, members⟩ := ih (pairwise_cons.mp sorted).2
    exact ⟨increasing, fun value => by rw [members]; simp⟩
  | case2 a b rest apart ih =>
    obtain ⟨least, tail⟩ := pairwise_cons.mp sorted
    obtain ⟨increasing, members⟩ := ih tail
    refine ⟨pairwise_cons.mpr ⟨fun value member => ?_, increasing⟩, fun value => by simp [members]⟩
    have inside := (members value).mp member
    have first := least b mem_cons_self
    have le : b ≤ value := by
      rcases mem_cons.mp inside with rfl | later
      · exact le_refl _
      · exact rel_of_pairwise_cons tail later
    omega
  | case3 values short =>
    match values, short with
    | [], _ => simp
    | [a], _ => simp
    | a :: b :: rest, short => exact absurd rfl (short a b rest)

theorem sweepAt_start (lines : List SpatialLine) :
    SweepAt coordinates lines 0 ⟨lines.zipIdx, Coverage.Index.empty coordinates.length, []⟩ where
  held := ⟨[], [], rfl,
    { tracks := Coverage.tracks_empty _
      room := Coverage.le_size_empty _
      spans_iff := by simp
      active_iff := by simp [Coverage.Index.empty]
      ending_iff := by simp
      sorted := by simp }, by simp⟩
  visible := by simp

end

/-- On one Canvas, the sweep gives each word to the first line that contains its centre. -/
theorem assignOnCanvas_eq (lines : List SpatialLine) (words : List SpatialWord)
    (upright : ∀ line ∈ lines, line.box.y1 ≤ line.box.y2)
    (ordered : lines.Pairwise fun a b => a.order < b.order) :
    assignOnCanvas lines words = (words.insertionSort wordBefore).filterMap fun word =>
      (lines.find? (·.contains word)).map fun line => (line.id, word.word) := by
  unfold assignOnCanvas
  split
  · rename_i none
    rcases none with rfl | rfl
    · simp
    · simp
  · have totalLine : Std.Total lineBefore := ⟨fun a b => by unfold lineBefore; omega⟩
    have transLine : IsTrans SpatialLine lineBefore := ⟨fun a b c => by unfold lineBefore; omega⟩
    have totalWord : Std.Total wordBefore := ⟨fun a b => by unfold wordBefore; omega⟩
    have transWord : IsTrans SpatialWord wordBefore := ⟨fun a b c => by unfold wordBefore; omega⟩
    have sortedLines := pairwise_insertionSort lineBefore lines
    have sortedWords := pairwise_insertionSort wordBefore words
    have sortedXs := pairwise_insertionSort (· ≤ ·) (words.map (·.centerX))
    obtain ⟨increasing, members⟩ := compactSortedInts_spec _ sortedXs
    apply sweepWords_eq increasing sortedLines _ (perm_insertionSort lineBefore lines) ordered _ _ _
      (sweepAt_start _) (fun _ _ => Nat.zero_le _)
    · intro line member
      exact upright line ((perm_insertionSort lineBefore lines).mem_iff.mp member)
    · exact sortedWords.imp fun {a b} before => by unfold wordBefore at before; omega
    · intro word member
      rw [members, (perm_insertionSort _ _).mem_iff]
      exact mem_map.mpr ⟨word, (perm_insertionSort wordBefore words).mem_iff.mp member, rfl⟩

/-! ## Ownership without the sweep -/

theorem parseXYWH_bounds {fragment : String} {box : Box} (parsed : parseXYWH fragment = .ok box) :
    box.x1 < box.x2 ∧ box.y1 < box.y2 ∧ box.x2 ≤ Iiif.maxPixelCoordinate ∧
      box.y2 ≤ Iiif.maxPixelCoordinate := by
  unfold parseXYWH at parsed
  cases rounded : parseRoundedXYWH fragment with
  | error message => simp [rounded, bind, Except.bind] at parsed
  | ok values =>
    simp only [rounded, bind, Except.bind] at parsed
    split at parsed
    · split at parsed
      · cases parsed
      · simp only [pure, Except.pure, Except.ok.injEq] at parsed
        subst parsed
        simp only
        omega
    · cases parsed

def ownerOf (items : List Json) (eligible : Option (List String)) (entry : String × SpatialWord) :
    Option String :=
  ((spatialLines items eligible entry.1).find? (·.contains entry.2)).map (·.id)

def ownedWords (items : List Json) (eligible : Option (List String)) (lineID : String) :
    List Located :=
  sortWithinLine ((spatialWords items).filterMap fun entry =>
    if ownerOf items eligible entry = some lineID then locateWord? entry.2.word else none)

theorem spatialItem?_eq_some {item : Json} {anno : Object} {canvas : String} {box : Box} :
    spatialItem? item = some (anno, canvas, box) ↔
      item = .obj anno ∧ annotationBox anno = .ok box ∧ extractCanvasURI anno = canvas ∧
      canvas ≠ "" := by
  cases item with
  | obj object =>
    cases parsed : annotationBox object with
    | error message =>
      simp only [spatialItem?, parsed, reduceCtorEq, Json.obj.injEq, false_iff]
      rintro ⟨rfl, same, _⟩
      simp [parsed] at same
    | ok found =>
      simp only [spatialItem?, parsed, Json.obj.injEq]
      by_cases missing : extractCanvasURI object = ""
      · simp only [missing, if_true, reduceCtorEq, false_iff]
        rintro ⟨rfl, _, rfl, named⟩
        exact named missing
      · simp only [missing, if_false, Option.some.injEq, Prod.mk.injEq]
        constructor
        · rintro ⟨rfl, rfl, rfl⟩
          exact ⟨rfl, parsed, rfl, missing⟩
        · rintro ⟨rfl, same, rfl, _⟩
          rw [parsed] at same
          exact ⟨rfl, rfl, Except.ok.inj same⟩
  | _ => simp [spatialItem?]

theorem spatialLine?_eq_some {eligible : Option (List String)} {canvasURI : String} {item : Json × Nat}
    {line : SpatialLine} :
    spatialLine? eligible canvasURI item = some line ↔
      ∃ anno, item.1 = .obj anno ∧ annotationBox anno = .ok line.box ∧
        extractCanvasURI anno = canvasURI ∧
        canvasURI ≠ "" ∧ hasLowerGranularity anno "line" = true ∧ annStringValue anno "id" = line.id ∧
        (∀ ids ∈ eligible, line.id ∈ ids) ∧ item.2 = line.order := by
  obtain ⟨id, box, order⟩ := line
  constructor
  · intro found
    cases place : spatialItem? item.1 with
    | none => simp [spatialLine?, place] at found
    | some entry =>
      obtain ⟨anno, canvas, box'⟩ := entry
      obtain ⟨isObject, parsed, onCanvas, named⟩ := spatialItem?_eq_some.mp place
      simp only [spatialLine?, place] at found
      split at found
      · rename_i accepted
        obtain ⟨rfl, rfl, rfl⟩ := by simpa using found
        exact ⟨anno, isObject, parsed, onCanvas.trans accepted.1, accepted.1 ▸ named,
          accepted.2.1, rfl, accepted.2.2, rfl⟩
      · cases found
  · rintro ⟨anno, isObject, parsed, onCanvas, named, isLine, rfl, accepted, rfl⟩
    have place := spatialItem?_eq_some.mpr ⟨isObject, parsed, onCanvas, named⟩
    simp only [spatialLine?, place]
    rw [if_pos ⟨trivial, isLine, accepted⟩]

theorem spatialLines_upright {items : List Json} {eligible : Option (List String)}
    {canvasURI : String} :
    ∀ line ∈ spatialLines items eligible canvasURI, line.box.y1 ≤ line.box.y2 := by
  intro line member
  obtain ⟨item, _, found⟩ := mem_filterMap.mp member
  obtain ⟨anno, _, parsed, _⟩ := spatialLine?_eq_some.mp found
  exact le_of_lt (parseXYWH_bounds parsed).2.1

theorem zipIdx_filterMap_pairwise {α β : Type} (f : α × Nat → Option β) (place : β → Nat)
    (keeps : ∀ item b, f item = some b → place b = item.2) (items : List α) :
    (items.zipIdx.filterMap f).Pairwise fun a b => place a < place b := by
  rw [pairwise_filterMap]
  have increasing : items.zipIdx.Pairwise fun a b => a.2 < b.2 := by
    rw [← pairwise_map (R := (· < ·)), zipIdx_map_snd]
    exact pairwise_lt_range'
  refine increasing.imp ?_
  intro a b less x fromA y fromB
  rw [keeps a x fromA, keeps b y fromB]
  exact less

theorem spatialLine?_order {eligible : Option (List String)} {canvasURI : String} (item : Json × Nat)
    (line : SpatialLine) (found : spatialLine? eligible canvasURI item = some line) :
    line.order = item.2 := by
  obtain ⟨_, _, _, _, _, _, _, _, order⟩ := spatialLine?_eq_some.mp found
  exact order.symm

theorem spatialLines_increasing (items : List Json) (eligible : Option (List String))
    (canvasURI : String) :
    (spatialLines items eligible canvasURI).Pairwise fun a b => a.order < b.order :=
  zipIdx_filterMap_pairwise (spatialLine? eligible canvasURI) SpatialLine.order
    spatialLine?_order items

theorem spatialWord?_index (item : Json × Nat) (entry : String × SpatialWord)
    (found : spatialWord? item = some entry) : entry.2.word.index = item.2 := by
  simp only [spatialWord?] at found
  split at found
  · split at found
    · cases found; rfl
    · cases found
  · cases found

theorem spatialWords_increasing (items : List Json) :
    (spatialWords items).Pairwise fun a b => a.2.word.index < b.2.word.index :=
  zipIdx_filterMap_pairwise spatialWord? (·.2.word.index) spatialWord?_index items

theorem assignedPairs_perm (items : List Json) (eligible : Option (List String)) :
    (assignedPairs items eligible).Perm
      ((spatialWords items).filterMap fun entry =>
        (ownerOf items eligible entry).map fun id => (id, entry.2.word)) := by
  have grouped := flatMap_filter_perm (fun entry : String × SpatialWord => entry.1)
    ((spatialWords items).map (·.1)).dedup (nodup_dedup _) (spatialWords items)
    (fun entry member => mem_dedup.mpr (mem_map.mpr ⟨entry, member, rfl⟩))
  have mapped := grouped.filterMap fun entry => (ownerOf items eligible entry).map fun id =>
    (id, entry.2.word)
  rw [filterMap_flatMap] at mapped
  refine (List.Perm.flatMap_left _ fun canvasURI _ => ?_).trans mapped
  rw [assignOnCanvas_eq _ _ spatialLines_upright (spatialLines_increasing items eligible canvasURI)]
  refine ((perm_insertionSort _ _).filterMap _).trans ?_
  rw [filterMap_map]
  apply List.Perm.of_eq
  apply filterMap_congr
  intro entry member
  have same : entry.1 = canvasURI := by simpa using (mem_filter.mp member).2
  simp [ownerOf, same, Function.comp_def]

theorem get_foldl_appendTo {α : Type} (pairs : List (String × α)) (groups : List (String × List α))
    (key : String) : (Assoc.get (pairs.foldl appendTo groups) key).getD [] =
      (Assoc.get groups key).getD [] ++ (pairs.filter (·.1 = key)).map (·.2) := by
  induction pairs generalizing groups with
  | nil => simp
  | cons pair rest ih =>
    rw [foldl_cons, ih]
    by_cases same : pair.1 = key
    · subst same
      simp [appendTo]
    · simp [appendTo, Assoc.get_set_of_ne _ _ same, same]

theorem get_map_value {α β : Type} (f : α → β) (groups : List (String × α)) (key : String) :
    Assoc.get (groups.map fun group => (group.1, f group.2)) key = (Assoc.get groups key).map f := by
  induction groups with
  | nil => rfl
  | cons group rest ih =>
    by_cases same : group.1 = key
    · simp [Assoc.get, same]
    · simp [Assoc.get, same, ih]

theorem sortWithinLine_of_perm {words others : List Located} (perm : words.Perm others)
    (determined : ∀ a ∈ words, ∀ b ∈ words, a.index = b.index → a = b) :
    sortWithinLine words = sortWithinLine others := by
  have total : Std.Total withinLine := ⟨fun a b => by unfold withinLine; omega⟩
  have trans : IsTrans Located withinLine := ⟨fun a b c => by unfold withinLine; omega⟩
  have first := perm_insertionSort withinLine words
  have second := perm_insertionSort withinLine others
  refine List.Perm.eq_of_pairwise ?_ (pairwise_insertionSort withinLine words)
    (pairwise_insertionSort withinLine others) (first.trans (perm.trans second.symm))
  intro a b memberA memberB before after
  have insideA := first.mem_iff.mp memberA
  have insideB := perm.mem_iff.mpr (second.mem_iff.mp memberB)
  exact determined a insideA b insideB (by unfold withinLine at before after; omega)

theorem locateWord?_index {word : PositionedWord} {located : Located}
    (found : locateWord? word = some located) :
    located.index = word.index ∧ located.anno = word.anno := by
  unfold locateWord? at found
  split at found
  · cases found; exact ⟨rfl, rfl⟩
  · cases found

/-- The sweep assigns to each line exactly the words it owns. -/
theorem wordsOfLine_assign (items : List Json) (eligible : Option (List String)) (lineID : String) :
    wordsOfLine (assignSpatialWordsToLines items eligible) lineID =
      ownedWords items eligible lineID := by
  have pairs := assignedPairs_perm items eligible
  have chosen := ((pairs.filter (·.1 = lineID)).map (·.2)).filterMap locateWord?
  have target : ((((spatialWords items).filterMap fun entry =>
      (ownerOf items eligible entry).map fun id =>
        (id, entry.2.word)).filter (·.1 = lineID)).map (·.2)).filterMap
        locateWord? = (spatialWords items).filterMap fun entry =>
          if ownerOf items eligible entry = some lineID then locateWord? entry.2.word else none := by
    rw [filterMap_map, filterMap_filter, filterMap_filterMap]
    apply filterMap_congr
    intro entry _
    cases ownerOf items eligible entry with
    | none => simp
    | some id => by_cases same : id = lineID <;> simp [same]
  rw [target] at chosen
  unfold wordsOfLine locatedWords ownedWords assignSpatialWordsToLines
  rw [get_map_value (fun words : List PositionedWord => words.insertionSort fun a b => a.x1 ≤ b.x1)]
  have listed := get_foldl_appendTo (assignedPairs items eligible) [] lineID
  have sorted : ∀ words : Option (List PositionedWord),
      (words.map fun words => words.insertionSort fun a b => a.x1 ≤ b.x1).getD [] =
        (words.getD []).insertionSort fun a b => a.x1 ≤ b.x1 := by
    intro words
    cases words <;> rfl
  rw [sorted, listed]
  have perm :=
    ((perm_insertionSort (fun a b : PositionedWord => a.x1 ≤ b.x1) _).filterMap locateWord?).trans
      chosen
  -- The sweep and the plain search list the same words; sorted by position they are equal.
  apply sortWithinLine_of_perm perm
  intro a memberA b memberB same
  obtain ⟨entryA, insideA, fromA⟩ := mem_filterMap.mp (perm.mem_iff.mp memberA)
  obtain ⟨entryB, insideB, fromB⟩ := mem_filterMap.mp (perm.mem_iff.mp memberB)
  split at fromA <;> split at fromB <;> try simp_all
  have indexA := locateWord?_index fromA
  have indexB := locateWord?_index fromB
  have one : entryA = entryB := by
    by_contra apart
    have related : (spatialWords items).Pairwise fun a b => a.2.word.index ≠ b.2.word.index :=
      (spatialWords_increasing items).imp fun less => Nat.ne_of_lt less
    have symmetric : Std.Symm fun a b : String × SpatialWord => a.2.word.index ≠ b.2.word.index :=
      ⟨fun _ _ ne => ne.symm⟩
    exact related.forall insideA insideB apart (by rw [← indexA.1, ← indexB.1, same])
  subst one
  exact Option.some.inj (fromA.symm.trans fromB)

end Scribe.Server
