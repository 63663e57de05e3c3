import Scribe.Data.Arrangement
import Scribe.Editor.Rows
import Mathlib.Tactic.Linarith

/-! The rows against the double loop they stand for.

Over exact numbers the bands that the two passes draw meet exactly when the
overlap and centre tests of two annotations do. So a word is in the row of the
first line it shares a line with, and every line and every word is in one row.
-/

set_option autoImplicit false

namespace Scribe.Editor

open List

section
variable [Arithmetic]

/-! ## Bands and overlaps -/

omit [Arithmetic] in
/-- Two intervals given by their starts and lengths: the relative overlap and the distance of the
centres together ask no more than that the centres are close to half the longer length. -/
theorem overlap_or_centres_iff {tallStart tall lowStart low : ℚ} (least : 1 ≤ low)
    (lower : low ≤ tall) :
    (45 / 100 ≤ max 0 (min (tallStart + tall) (lowStart + low) - max tallStart lowStart) / low ∨
        |tallStart + tall / 2 - (lowStart + low / 2)| ≤ tall * (45 / 100)) ↔
      tallStart ≤ lowStart + low / 2 + low * (1 / 20) ∧
      lowStart + low / 2 - low * (1 / 20) ≤ tallStart + tall := by
  have positive : 0 < low := by linarith
  rw [le_div_iff₀ positive, abs_le, le_max_iff, le_sub_iff_add_le, le_min_iff]
  constructor
  · rintro ((none | ⟨above, below⟩) | ⟨above, below⟩)
    · exact absurd none (by linarith)
    · have left := le_max_left tallStart lowStart
      have right := le_max_right tallStart lowStart
      exact ⟨by linarith, by linarith⟩
    · exact ⟨by linarith, by linarith⟩
  · rintro ⟨above, below⟩
    refine .inl (.inr ⟨?_, ?_⟩)
    · rcases max_cases tallStart lowStart with ⟨same, _⟩ | ⟨same, _⟩ <;> rw [same] <;> linarith
    · rcases max_cases tallStart lowStart with ⟨same, _⟩ | ⟨same, _⟩ <;> rw [same] <;> linarith

theorem bandsMeet_iff_shareLine (exact : Arithmetic.Exact) {line word : Object}
    (lineTall : 1 ≤ (annotationBBox line).h) (wordTall : 1 ≤ (annotationBBox word).h) :
    bandsMeet line word ↔ annotationsShareLine line word = true := by
  have linePositive : 0 < (annotationBBox line).h := by linarith
  have wordPositive : 0 < (annotationBBox word).h := by linarith
  have unrounded : ∀ value, Arithmetic.round value = value := exact
  simp only [bandsMeet, VerticalEntry.meets, Pass.meets, Pass.linePoint, verticalEntry,
    linePositive, wordPositive, if_true, annotationsShareLine, Bool.decide_or, Bool.or_eq_true,
    decide_eq_true_eq, Arithmetic.add, Arithmetic.sub, Arithmetic.mul, Arithmetic.div, unrounded]
  generalize (annotationBBox line).h = lineHeight at *
  generalize (annotationBBox word).h = wordHeight at *
  generalize (annotationBBox line).y = lineTop
  generalize (annotationBBox word).y = wordTop
  by_cases high : wordHeight ≤ lineHeight
  · rw [if_pos high, min_eq_right high, max_eq_right wordTall, max_eq_left high,
      overlap_or_centres_iff wordTall high]
    simp only [Pass.lineReach, Pass.wordReach, unrounded]
    constructor
    · rintro ⟨above, below⟩
      exact ⟨by linarith, by linarith⟩
    · rintro ⟨above, below⟩
      exact ⟨by linarith, by linarith⟩
  · have low : lineHeight ≤ wordHeight := le_of_not_ge high
    rw [if_neg high, min_eq_left low, max_eq_right lineTall, max_eq_right low, abs_sub_comm,
      min_comm (lineTop + lineHeight), max_comm lineTop, overlap_or_centres_iff lineTall low]
    simp only [Pass.lineReach, Pass.wordReach, unrounded]
    constructor
    · rintro ⟨above, below⟩
      exact ⟨by linarith, by linarith⟩
    · rintro ⟨above, below⟩
      exact ⟨by linarith, by linarith⟩

/-! ## Every word in one row -/

section
variable (collation : Collation)

def looseRows (items : List Json) : List EditorRow :=
  ((looseWords (entriesOf (editorLines collation items))
    (entriesOf (editorWords collation items))).foldl
    addLooseWord []).map fun row =>
      { row with fields := sortAnnotationsWithinLine collation row.fields }

def lineRows (items : List Json) : List EditorRow :=
  (editorLines collation items).zipIdx.map
    (lineRow collation (entriesOf (editorLines collation items))
      (entriesOf (editorWords collation items)))

theorem groupAnnotationsForEditor_eq (items : List Json) :
    groupAnnotationsForEditor collation items =
      if editorWords collation items = [] then
        (editorLines collation items).map fun line => ⟨idText line, .line, line, [line]⟩
      else (lineRows collation items ++ looseRows collation
        items).insertionSort (rowBefore collation) := rfl

theorem groupAnnotationsForEditor_perm (items : List Json) :
    (groupAnnotationsForEditor collation items).Perm
      (lineRows collation items ++ looseRows collation items) := by
  by_cases none : editorWords collation items = []
  · have bare : lineRows collation items =
        (editorLines collation items).map fun line => ⟨idText line, .line, line, [line]⟩ := by
      have alone : lineRow collation (entriesOf (editorLines collation items))
          (entriesOf (editorWords collation items)) =
          (fun line => ⟨idText line, .line, line, [line]⟩) ∘ Prod.fst := by
        funext line
        simp [lineRow, none, entriesOf, sortAnnotationsWithinLine]
      rw [lineRows, alone, ← map_map, zipIdx_map_fst]
    have noneLoose : looseRows collation items = [] := by simp [looseRows, none, entriesOf, looseWords]
    rw [bare, noneLoose, append_nil, groupAnnotationsForEditor_eq, if_pos none]
  · rw [groupAnnotationsForEditor_eq, if_neg none]
    exact perm_insertionSort _ _

theorem flatMap_fields_addLooseWord (rows : List EditorRow) (word : Object) :
    (addLooseWord rows word).flatMap (·.fields) = rows.flatMap (·.fields) ++ [word] := by
  rcases addLooseWord_cases rows word with opened | ⟨before, row, rfl, joined⟩
  · rw [opened, flatMap_append]
    rfl
  · rw [joined]
    simp

theorem flatMap_fields_foldl_addLooseWord (loose : List Object) (rows : List EditorRow) :
    (loose.foldl addLooseWord rows).flatMap (·.fields) = rows.flatMap (·.fields) ++ loose := by
  induction loose generalizing rows with
  | nil => simp
  | cons word rest ih => rw [foldl_cons, ih, flatMap_fields_addLooseWord, append_assoc]; rfl

/-- The words that the line of an order takes, or no line. -/
def takenBy (items : List Json) (order : WithTop Nat) : List Object :=
  ((entriesOf (editorWords collation items)).filter fun word =>
    lineOrder (entriesOf (editorLines collation items)) (entriesOf (editorWords collation items))
      word = order).map (·.anno)

theorem mem_takenBy_isWord {items : List Json} {order : WithTop Nat} {word : Object}
    (taken : word ∈ takenBy collation items order) : isWordAnnotation word = true := by
  obtain ⟨entry, member, rfl⟩ := mem_map.mp taken
  obtain ⟨anno, position, found, rfl⟩ := mem_entriesOf.mp (mem_filter.mp member).1
  exact of_mem_filter (mem_of_getElem? found)

theorem lineRow_words {items : List Json} {line : Object} {order : Nat}
    (isLine : isLineAnnotation line = true) :
    ((lineRow collation (entriesOf (editorLines collation items))
      (entriesOf (editorWords collation items))
      (line, order)).fields.filter isWordAnnotation).Perm (takenBy collation items order) := by
  have sorted : (sortAnnotationsWithinLine collation (takenBy collation items order)).Perm
      (takenBy collation items order) := perm_insertionSort _ _
  have row : lineRow collation (entriesOf (editorLines collation items))
      (entriesOf (editorWords collation items))
      (line, order) = if sortAnnotationsWithinLine collation (takenBy collation items order) = [] then
        ⟨idText line, .line, line, [line]⟩
      else ⟨idText line, .word, line,
        sortAnnotationsWithinLine collation (takenBy collation items order)⟩ := rfl
  rw [row]
  split
  · rename_i empty
    rw [empty] at sorted
    rw [nil_perm.mp sorted]
    simp [not_word_of_line isLine]
  · have words : ∀ word ∈ sortAnnotationsWithinLine collation (takenBy collation items order),
        isWordAnnotation word = true :=
          fun word member => mem_takenBy_isWord collation (sorted.mem_iff.mp member)
    simp only
    rw [filter_eq_self.mpr words]
    exact sorted

theorem looseRows_words (items : List Json) :
    ((looseRows collation items).flatMap fun row => row.fields.filter isWordAnnotation).Perm
      (takenBy collation items ⊤) := by
  have words : ∀ word ∈ takenBy collation items ⊤, isWordAnnotation word = true :=
    fun word member => mem_takenBy_isWord collation member
  have fields := flatMap_fields_foldl_addLooseWord (takenBy collation items ⊤) []
  rw [flatMap_nil, nil_append] at fields
  have sorted : ((looseRows collation items).flatMap fun row =>
      row.fields).Perm (takenBy collation items ⊤) := by
    rw [← fields, looseRows, flatMap_map]
    exact List.Perm.flatMap_left _ fun row _ => perm_insertionSort _ _
  have filtered := sorted.filter isWordAnnotation
  rw [filter_flatMap, filter_eq_self.mpr words] at filtered
  exact filtered

theorem entriesOf_anno (annotations : List Object) :
    (entriesOf annotations).map (·.anno) = annotations := by
  have annos : (fun entry : VerticalEntry => entry.anno) ∘ verticalEntry = Prod.fst := rfl
  rw [entriesOf, map_map, annos, zipIdx_map_fst]

theorem rows_words (items : List Json) :
    ((groupAnnotationsForEditor collation items).flatMap fun row =>
      row.fields.filter isWordAnnotation).Perm
      (editorWords collation items) := by
  let count := (editorLines collation items).length
  let orders : List (WithTop Nat) := (List.range count).map WithTop.some ++ [⊤]
  have byOrder : (orders.flatMap (takenBy collation items)).Perm (editorWords collation items) := by
    have distinct : orders.Nodup := by
      refine nodup_append.mpr ⟨nodup_range.map WithTop.coe_injective, nodup_singleton _, ?_⟩
      intro a inside b last
      obtain ⟨order, -, rfl⟩ := mem_map.mp inside
      rw [mem_singleton.mp last]
      exact WithTop.coe_ne_top
    have grouped := (flatMap_filter_perm
      (lineOrder (entriesOf (editorLines collation items))
        (entriesOf (editorWords collation items))) orders distinct
      (entriesOf (editorWords collation items)) ?_).map (·.anno)
    · rw [entriesOf_anno, map_flatMap] at grouped
      exact grouped
    · intro entry member
      obtain ⟨word, position, found, rfl⟩ := mem_entriesOf.mp member
      by_cases top : lineOrder (entriesOf (editorLines collation items))
          (entriesOf (editorWords collation items))
          (verticalEntry (word, position)) = ⊤
      · rw [top]
        exact mem_append_right _ (mem_singleton_self _)
      · obtain ⟨order, same⟩ := WithTop.ne_top_iff_exists.mp top
        obtain ⟨⟨line, lineFound, -⟩, -⟩ := (lineOrder_eq_iff _ found).mp same.symm
        rw [← same]
        refine mem_append_left _ (mem_map_of_mem (mem_range.mpr ?_))
        exact (List.getElem?_eq_some_iff.mp lineFound).1
  refine ((groupAnnotationsForEditor_perm collation items).flatMap_right _).trans (.trans ?_ byOrder)
  rw [flatMap_append, flatMap_append, flatMap_singleton, flatMap_map, lineRows, flatMap_map]
  refine List.Perm.append ?_ (looseRows_words collation items)
  have positions : List.range count = (editorLines collation items).zipIdx.map Prod.snd := by
    rw [zipIdx_map_snd, range_eq_range']
  rw [positions, flatMap_map]
  refine List.Perm.flatMap_left _ fun entry member => ?_
  exact lineRow_words collation (of_mem_filter (mem_of_getElem? (mem_zipIdx_iff_getElem?.mp member)))

theorem rows_lead_count {items : List Json} {line : Object} (isLine : isLineAnnotation line = true) :
    (groupAnnotationsForEditor collation items).countP (·.lead = line) =
      (editorLines collation items).count line := by
  rw [(groupAnnotationsForEditor_perm collation items).countP_eq, countP_append]
  have lines : (lineRows collation items).countP (·.lead = line) =
      (editorLines collation items).count line := by
    have leads : (lineRows collation items).map (·.lead) = editorLines collation items := by
      rw [lineRows, map_map]
      have first : (·.lead) ∘ lineRow collation (entriesOf (editorLines collation items))
          (entriesOf (editorWords collation items)) = Prod.fst := by
        funext entry
        exact lineRow_lead collation _ _ entry
      rw [first, zipIdx_map_fst]
    rw [← leads, List.count, countP_map]
    exact countP_congr fun row _ => by simp
  have loose : (looseRows collation items).countP (·.lead = line) = 0 := by
    rw [countP_eq_zero]
    intro row member same
    obtain ⟨opened, inside, rfl⟩ := mem_map.mp member
    have isWord := loose_lead_word collation inside
    simp only [decide_eq_true_eq] at same
    exact not_word_of_line isLine (same ▸ isWord)
  rw [lines, loose, Nat.add_zero]

end

/-! ## Pages -/

def linesAndWords (items : List Json) : List Object :=
  (items.map Json.toObject).filter fun anno => isLineAnnotation anno || isWordAnnotation anno

/-- Lines and words have identifiers of their own and are at least one pixel high. -/
structure RowPage (items : List Json) : Prop where
  identified : ∀ anno ∈ linesAndWords items, hasId anno = true
  distinct : ((linesAndWords items).map idText).Nodup
  tall : ∀ anno ∈ linesAndWords items, 1 ≤ (annotationBBox anno).h

def FirstSharing (collation : Collation) (items : List Json) (line word : Object) : Prop :=
  ∃ before after, (sortedAnnotations collation items).filter
    isLineAnnotation = before ++ line :: after ∧
    annotationsShareLine line word = true ∧ ∀ other ∈ before, annotationsShareLine other word = false

/-- The rows that the double loop over lines and words makes. -/
structure NaiveRows (collation : Collation) (items : List Json) (rows : List EditorRow) : Prop where
  nested : ∀ line ∈ linesAndWords items, ∀ word ∈ linesAndWords items, isLineAnnotation line = true →
    isWordAnnotation word = true → (NestedUnder rows line word ↔
      FirstSharing collation items line word)
  loose : ∀ word ∈ linesAndWords items, isWordAnnotation word = true →
    (∀ line ∈ linesAndWords items, isLineAnnotation line = true →
      annotationsShareLine line word = false) →
    LeftLoose rows word
  leads : ∀ line ∈ linesAndWords items, isLineAnnotation line = true → rows.countP (·.lead = line) = 1
  holds : ∀ word ∈ linesAndWords items, isWordAnnotation word = true →
    rows.countP (word ∈ ·.fields) = 1

section
variable {items : List Json} (page : RowPage items) (collation : Collation)
include page

theorem RowPage.mem_sorted {anno : Object} :
    anno ∈ (sortedAnnotations collation items).filter (fun anno => isLineAnnotation anno ||
      isWordAnnotation anno) ↔
      anno ∈ linesAndWords items := by
  rw [mem_filter, sortedAnnotations, mem_insertionSort, mem_filter, linesAndWords, mem_filter]
  constructor
  · exact fun ⟨⟨listed, _⟩, level⟩ => ⟨listed, level⟩
  · exact fun ⟨listed, level⟩ => ⟨⟨listed, page.identified anno (mem_filter.mpr ⟨listed, level⟩)⟩,
      level⟩

theorem RowPage.mem_editorLines {anno : Object} (isLine : isLineAnnotation anno = true) :
    anno ∈ editorLines collation items ↔ anno ∈ linesAndWords items := by
  rw [← page.mem_sorted collation, editorLines, mem_filter, mem_filter, isLine, Bool.true_or]

theorem RowPage.mem_editorWords {anno : Object} (isWord : isWordAnnotation anno = true) :
    anno ∈ editorWords collation items ↔ anno ∈ linesAndWords items := by
  rw [← page.mem_sorted collation, editorWords, mem_filter, mem_filter, isWord, Bool.or_true]

theorem RowPage.sorted_nodup (level : Object → Bool) (shown : ∀ anno, level anno = true →
    isLineAnnotation anno || isWordAnnotation anno) :
    ((sortedAnnotations collation items).filter level).Nodup := by
  have perm : ((sortedAnnotations collation items).filter level).Perm
      (((items.map Json.toObject).filter hasId).filter level) :=
    (perm_insertionSort _ _).filter level
  refine perm.nodup_iff.mpr ?_
  have fewer : (((items.map Json.toObject).filter hasId).filter level).Sublist
      (linesAndWords items) := by
    rw [filter_filter, linesAndWords]
    refine monotone_filter_right _ fun anno both => ?_
    simp only [Bool.and_eq_true] at both
    exact shown anno both.1
  exact (page.distinct.of_map _).sublist fewer

end

/-- Over exact numbers the editor's rows are those of the double loop. -/
theorem rows_are_naive (exact : Arithmetic.Exact) (collation : Collation) {items : List Json}
    (page : RowPage items) :
    NaiveRows collation items (groupAnnotationsForEditor collation items) := by
  -- With exact arithmetic the two band passes decide what the direct comparison decides.
  have bands : ∀ line ∈ linesAndWords items, ∀ word ∈ linesAndWords items,
      (bandsMeet line word ↔ annotationsShareLine line word = true) := fun line isLine word isWord =>
    bandsMeet_iff_shareLine exact (page.tall line isLine) (page.tall word isWord)
  refine ⟨?_, ?_, ?_, ?_⟩
  · intro line lineListed word wordListed isLine isWord
    rw [nestedUnder_iff collation ((page.mem_editorLines collation isLine).mpr lineListed)
      ((page.mem_editorWords collation isWord).mpr wordListed)]
    have others : ∀ before after, editorLines collation items = before ++ line :: after →
        ∀ other ∈ before, (¬ bandsMeet other word ↔ annotationsShareLine other word = false) := by
      intro before after split other early
      have inside : other ∈ editorLines collation items := by
        rw [split]
        exact mem_append_left _ early
      have otherListed := (page.mem_editorLines collation (of_mem_filter inside)).mp inside
      rw [bands other otherListed word wordListed, Bool.not_eq_true]
    constructor
    · rintro ⟨before, after, split, meets, none⟩
      exact ⟨before, after, split, (bands line lineListed word wordListed).mp meets, fun other early =>
        (others before after split other early).mp (none other early)⟩
    · rintro ⟨before, after, split, shares, none⟩
      exact ⟨before, after, split, (bands line lineListed word wordListed).mpr shares,
        fun other early => (others before after split other early).mpr (none other early)⟩
  · intro word listed isWord none
    rw [leftLoose_iff collation ((page.mem_editorWords collation isWord).mpr listed)]
    intro line inside
    have isLine := of_mem_filter inside
    have lineListed := (page.mem_editorLines collation isLine).mp inside
    rw [bands line lineListed word listed, none line lineListed isLine]
    exact Bool.false_ne_true
  · intro line listed isLine
    have distinct : (editorLines collation items).Nodup :=
      page.sorted_nodup collation isLineAnnotation fun anno isLine => by rw [isLine, Bool.true_or]
    rw [rows_lead_count collation isLine]
    exact count_eq_one_of_mem distinct ((page.mem_editorLines collation isLine).mpr listed)
  · intro word listed isWord
    have distinct : (editorWords collation items).Nodup :=
      page.sorted_nodup collation isWordAnnotation fun anno isWord => by rw [isWord, Bool.or_true]
    -- The rows together list every word once, so no word is in two of them.
    have together := rows_words collation items
    have apart := (nodup_flatMap.mp (together.nodup_iff.mpr distinct)).1
    have counted :=
      countP_mem_eq_count (fun row : EditorRow => row.fields.filter isWordAnnotation) word
      (groupAnnotationsForEditor collation items) apart
    rw [together.count_eq, count_eq_one_of_mem distinct
      ((page.mem_editorWords collation isWord).mpr listed)]
      at counted
    rw [← counted]
    exact countP_congr fun row _ => by simp [isWord]

end

def shownObject (level id text xywh : String) : Object :=
  [("id", .str id), ("textGranularity", .str level),
    ("body", .arr [.obj [("type", .str "TextualBody"), ("purpose", .str "supplementing"),
      ("format", .str "text/plain"), ("value", .str text)]]),
    ("target", .str ("https://h/c#xywh=" ++ xywh))]

/-- A line with two words, one of them taller than the line, and a word below it. -/
def tallWordPage : List Json :=
  [.obj (shownObject "word" "B" "b" "60,2,30,40"), .obj (shownObject "line" "L" "a b" "0,0,100,20"),
    .obj (shownObject "word" "A" "a" "5,4,30,12"), .obj (shownObject "word" "C" "c" "0,80,30,12")]

theorem rows_are_naive_tall_word :
    @Arithmetic.Exact .rational ∧ @RowPage .rational tallWordPage ∧
      @NaiveRows .rational codePointOrder tallWordPage
        (@groupAnnotationsForEditor .rational codePointOrder tallWordPage) := by
  have exact : @Arithmetic.Exact .rational := fun _ => rfl
  have page : @RowPage .rational tallWordPage :=
    @RowPage.mk .rational tallWordPage (by decide +kernel) (by decide +kernel) (by decide +kernel)
  exact ⟨exact, page, @rows_are_naive .rational exact codePointOrder tallWordPage page⟩

end Scribe.Editor
