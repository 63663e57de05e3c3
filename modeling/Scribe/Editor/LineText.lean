import Scribe.Data.Arrangement
import Scribe.Editor.NaiveRows

/-! The text of a line after one of its words is edited.

The editor shows a word in the row of the first line, in reading order, that it
shares a line with. After an edit of the word the script looks for a line once more,
now in the order of the page, and collects every word that shares a line with it,
whatever row shows the word. The text of the row's line is that of the row exactly
when both searches give the same.
-/

set_option autoImplicit false

namespace Scribe.Editor

open List Json

/-! ## Texts -/

def isTextual (body : Json) : Bool := field body.toObject "type" = .str "TextualBody"

def isTranscription (body : Json) : Bool :=
  isTextual body && (field body.toObject "purpose" = .str "describing" ||
    field body.toObject "purpose" = .str "supplementing")

def annotationTextBody (anno : Object) : Option Object :=
  match field anno "body" with
  | .arr bodies => ((bodies.find? isTranscription).or (bodies.find? isTextual)).map Json.toObject
  | .obj body => if isTextual (.obj body) then some body else none
  | .str text => some [("type", .str "TextualBody"), ("purpose", .str "supplementing"),
    ("value", .str text)]
  | _ => none

def annotationText (anno : Object) : Json :=
  match annotationTextBody anno with
  | some body => if truthy (field body "value") then field body "value" else .str ""
  | none => .str ""

def replacementBody (body : Object) (text : String) : Object :=
  Assoc.set (Assoc.set (Assoc.set (Assoc.set body "format" (.str "text/plain")) "purpose"
    (.str "supplementing"))
    "type" (.str "TextualBody")) "value" (.str text)

/-- Replace the first transcription, if there is one. -/
def replaceTranscription (text : String) : List Json → Option (List Json)
  | [] => none
  | body :: rest =>
      if isTranscription body then some (.obj (replacementBody body.toObject text) :: rest)
      else (replaceTranscription text rest).map (body :: ·)

def updateAnnotationText (anno : Object) (text : String) : Object :=
  let bodies := match field anno "body" with
    | .arr bodies => (replaceTranscription text bodies).getD (.obj (replacementBody [] text) :: bodies)
    | .obj body => [.obj (replacementBody (if isTextual (.obj body) then body else []) text)]
    | _ => [.obj (replacementBody [] text)]
  Assoc.set anno "body" (.arr bodies)

/-- Put an annotation in the place of the item with its identifier, or at the end. -/
def upsertAnnotationInPage (items : List Json) (anno : Object) : List Json :=
  match items.findIdx? fun item => field item.toObject "id" = field anno "id" with
  | some index => items.set index (.obj anno)
  | none => items ++ [.obj anno]

def joinedTexts (words : List Object) : String :=
  String.intercalate " " (((words.map annotationText).filter truthy).map scriptText)

section
variable [Arithmetic] (collation : Collation)

/-- The first line, in page order, that shares a line with a word. -/
def matchingLine (items : List Json) (word : Object) : Option Object :=
  (items.map Json.toObject).find? fun anno => isLineAnnotation anno && annotationsShareLine anno word

def sharingWords (items : List Json) (line : Object) : List Object :=
  sortAnnotationsWithinLine collation
    ((items.map Json.toObject).filter fun anno => isWordAnnotation anno &&
      annotationsShareLine anno line)

def synchronizeLineTextFromWords (items : List Json) (changedWord : Object) : List Json :=
  if isWordAnnotation changedWord = false then items
  else match matchingLine items changedWord with
    | none => items
    | some line =>
        let rowWords := sharingWords collation items line
        if rowWords = [] then items
        else upsertAnnotationInPage items (updateAnnotationText line (joinedTexts rowWords))

end

/-! ## Writing and reading texts -/

theorem field_replacementBody_value (body : Object) (text : String) :
    field (replacementBody body text) "value" = .str text := by
  rw [replacementBody, field_set_self]

theorem isTranscription_replacementBody (body : Object) (text : String) :
    isTranscription (.obj (replacementBody body text)) = true := by
  have type : field (replacementBody body text) "type" = .str "TextualBody" := by
    rw [replacementBody, field_set_of_ne _ _ (by decide), field_set_self]
  have purpose : field (replacementBody body text) "purpose" = .str "supplementing" := by
    rw [replacementBody, field_set_of_ne _ _ (by decide), field_set_of_ne _ _ (by decide),
      field_set_self]
  simp [isTranscription, isTextual, type, purpose]

theorem find?_replaceTranscription {text : String} {bodies replaced : List Json}
    (found : replaceTranscription text bodies = some replaced) :
    ∃ body, replaced.find? isTranscription = some (.obj (replacementBody body text)) := by
  induction bodies generalizing replaced with
  | nil => cases found
  | cons body rest ih =>
    rw [replaceTranscription] at found
    split at found
    · obtain rfl := Option.some.inj found
      exact ⟨body.toObject, by rw [find?_cons_of_pos (isTranscription_replacementBody _ _)]⟩
    · rename_i other
      obtain ⟨later, replacedLater, rfl⟩ := Option.map_eq_some_iff.mp found
      rw [find?_cons_of_neg other]
      exact ih replacedLater

theorem updateAnnotationText_bodies (anno : Object) (text : String) :
    ∃ bodies body, updateAnnotationText anno text = Assoc.set anno "body" (.arr bodies) ∧
      bodies.find? isTranscription = some (.obj (replacementBody body text)) := by
  have single : ∀ body : Object, ∀ rest : List Json,
      (Json.obj (replacementBody body text) :: rest).find? isTranscription =
      some (.obj (replacementBody body text)) := fun body rest =>
    find?_cons_of_pos (isTranscription_replacementBody body text)
  rw [updateAnnotationText]
  split
  · rename_i bodies _
    cases replaced : replaceTranscription text bodies with
    | none => exact ⟨_, [], rfl, single [] bodies⟩
    | some found =>
      obtain ⟨body, first⟩ := find?_replaceTranscription replaced
      exact ⟨_, body, rfl, first⟩
  · exact ⟨_, _, rfl, single _ []⟩
  · exact ⟨_, [], rfl, single [] []⟩

theorem annotationText_updateAnnotationText (anno : Object) (text : String) :
    annotationText (updateAnnotationText anno text) = .str text := by
  obtain ⟨bodies, body, updated, first⟩ := updateAnnotationText_bodies anno text
  have read : annotationTextBody (updateAnnotationText anno text) =
      some (replacementBody body text) := by
    rw [updated, annotationTextBody, field_set_self]
    simp [first]
  rw [annotationText, read]
  simp only [field_replacementBody_value, truthy]
  by_cases empty : text = ""
  · simp [empty]
  · simp [empty]

theorem field_updateAnnotationText_id (anno : Object) (text : String) :
    field (updateAnnotationText anno text) "id" = field anno "id" :=
  field_set_of_ne _ _ (by decide)

/-! ## Joined texts -/

theorem length_intercalate_space (texts : List String) :
    (String.intercalate " " texts).length = (texts.map fun text => text.length + 1).sum - 1 := by
  induction texts with
  | nil => simp
  | cons first rest ih =>
    cases rest with
    | nil => simp
    | cons second others =>
      rw [String.intercalate_cons_cons, String.length_append, String.length_append, ih]
      simp only [map_cons, sum_cons]
      have space : " ".length = 1 := rfl
      omega

theorem sublist_weight {some all : List String} (fewer : some.Sublist all)
    (full : ∀ text ∈ all, text ≠ "") :
    some = all ∨ (some.map fun text => text.length + 1).sum + 2 ≤
      (all.map fun text => text.length + 1).sum := by
  induction fewer with
  | slnil => exact .inl rfl
  | cons text fewer ih =>
    have positive : 0 < text.length := Nat.pos_of_ne_zero fun zero =>
      full text mem_cons_self (String.length_eq_zero_iff.mp zero)
    refine .inr ?_
    rw [map_cons, sum_cons]
    rcases ih fun other later => full other (mem_cons_of_mem _ later) with rfl | less
    · omega
    · omega
  | cons_cons text fewer ih =>
    rcases ih fun other later => full other (mem_cons_of_mem _ later) with rfl | less
    · exact .inl rfl
    · refine .inr ?_
      simp only [map_cons, sum_cons]
      omega

theorem sublist_eq_of_joined {some all : List String} (fewer : some.Sublist all)
    (full : ∀ text ∈ all, text ≠ "")
    (same : String.intercalate " " some = String.intercalate " " all) : some = all := by
  have lengths := congrArg String.length same
  rw [length_intercalate_space, length_intercalate_space] at lengths
  rcases sublist_weight fewer full with equal | less
  · exact equal
  · omega

theorem joinedTexts_eq (words : List Object) :
    joinedTexts words = String.intercalate " "
      ((words.filter fun word => truthy (annotationText word)).map fun word =>
        scriptText (annotationText word)) := by
  rw [joinedTexts, filter_map, map_map]
  rfl

theorem joinedTexts_filter_iff {words : List Object} (keep : Object → Bool)
    (texts : ∀ word ∈ words, ∃ text, annotationText word = .str text) :
    joinedTexts (words.filter keep) = joinedTexts words ↔
      ∀ word ∈ words, annotationText word ≠ .str "" → keep word = true := by
  have truthy_iff : ∀ word ∈ words, (truthy (annotationText word) = true ↔
      annotationText word ≠ .str "") := by
    intro word member
    obtain ⟨text, read⟩ := texts word member
    simp [read, truthy]
  rw [joinedTexts_eq, joinedTexts_eq, filter_comm]
  constructor
  · intro same word member nonempty
    have full : ∀ text ∈ (words.filter fun word => truthy (annotationText word)).map fun word =>
        scriptText (annotationText word), text ≠ "" := by
      intro text listed
      obtain ⟨other, kept, rfl⟩ := mem_map.mp listed
      obtain ⟨inside, hasText⟩ := mem_filter.mp kept
      obtain ⟨text, read⟩ := texts other inside
      rw [read] at hasText ⊢
      simpa [truthy, scriptText] using hasText
    have equal := congrArg List.length (sublist_eq_of_joined (filter_sublist.map _) full same)
    rw [length_map, length_map, length_filter_eq_length_iff] at equal
    exact equal word (mem_filter.mpr ⟨member, (truthy_iff word member).mpr nonempty⟩)
  · intro all
    rw [filter_eq_self.mpr fun word member => all word (mem_filter.mp member).1
      ((truthy_iff word (mem_filter.mp member).1).mp (mem_filter.mp member).2)]

/-! ## Pages -/

theorem set_eq_map {α : Type} [DecidableEq α] {l : List α} (distinct : l.Nodup) {i : Nat} {a : α}
    (at_ : l[i]? = some a) (b : α) : l.set i b = l.map fun x => if x = a then b else x := by
  obtain ⟨inside, rfl⟩ := List.getElem?_eq_some_iff.mp at_
  refine ext_getElem (by simp) fun j first second => ?_
  have within : j < l.length := by simpa using second
  rw [getElem_set, getElem_map]
  by_cases same : i = j
  · subst same
    simp
  · have apart : ¬ l[j] = l[i] := fun equal => same (distinct.getElem_inj_iff.mp equal).symm
    rw [if_neg same, if_neg apart]

section
variable [Arithmetic]

/-- Items have identifiers of their own, lines and words are at least one pixel high, and texts are
strings. -/
structure TextPage (items : List Json) : Prop where
  identified : ∀ item ∈ items, item = .obj item.toObject ∧ hasId item.toObject = true
  distinct : ((items.map Json.toObject).map idText).Nodup
  tall : ∀ anno ∈ linesAndWords items, 1 ≤ (annotationBBox anno).h
  texts : ∀ anno ∈ linesAndWords items, isWordAnnotation anno = true → ∃ text,
    annotationText anno = .str text

theorem annotationsShareLine_comm (exact : Arithmetic.Exact) (left right : Object) :
    annotationsShareLine left right = annotationsShareLine right left := by
  have unrounded : ∀ value, Arithmetic.round value = value := exact
  simp only [annotationsShareLine, Arithmetic.add, Arithmetic.sub, Arithmetic.mul,
    Arithmetic.div, unrounded]
  rw [max_comm (annotationBBox left).y, min_comm (_ + _) (_ + _), min_comm (annotationBBox left).h,
    max_comm (annotationBBox left).h, abs_sub_comm]

variable {items : List Json} (page : TextPage items)
include page

theorem TextPage.objects_nodup : (items.map Json.toObject).Nodup := page.distinct.of_map _

theorem TextPage.rowPage : RowPage items where
  identified anno listed := by
    obtain ⟨item, member, rfl⟩ := mem_map.mp (mem_filter.mp listed).1
    exact (page.identified item member).2
  distinct := page.distinct.sublist (filter_sublist.map _)
  tall := page.tall

theorem TextPage.upsert {old new : Object} (listed : Json.obj old ∈ items)
    (sameID : field new "id" = field old "id") :
    upsertAnnotationInPage items new = items.map fun item => if item = .obj old then .obj new
      else item := by
  obtain ⟨index, at_⟩ := mem_iff_getElem?.mp listed
  have found : items.findIdx? (fun item => field item.toObject "id" = field new "id") =
      some index := by
    rw [findIdx?_eq_some_iff_getElem]
    obtain ⟨inside, here⟩ := List.getElem?_eq_some_iff.mp at_
    refine ⟨inside, by simp [here, sameID], fun earlier less => ?_⟩
    have within : earlier < items.length := less.trans inside
    have apart : idText items[earlier].toObject ≠ idText items[index].toObject := by
      have distinct := pairwise_iff_getElem.mp page.distinct earlier index (by simpa using within)
        (by simpa using inside) less
      simpa using distinct
    rw [decide_eq_true_eq, sameID]
    intro same
    apply apart
    rw [here, idText, idText, Json.toObject_obj, same]
  rw [upsertAnnotationInPage, found]
  refine set_eq_map ?_ at_ _
  exact page.objects_nodup.of_map _

end

/-! ## The words of a row -/

section
variable [Arithmetic] (collation : Collation) {items : List Json}

theorem row_fields {row : EditorRow} {word : Object}
    (listed : row ∈ groupAnnotationsForEditor collation items)
    (isLine : isLineAnnotation row.lead = true) (isWord : isWordAnnotation word = true)
    (shown : word ∈ row.fields) : row.granularity = .word ∧ row.lead ∈ editorLines collation items ∧
      ∃ order : Nat, row.fields = sortAnnotationsWithinLine collation
        (takenBy collation items order) := by
  rcases mem_append.mp ((groupAnnotationsForEditor_perm collation items).mem_iff.mp listed) with
      ofLine | loose
  · obtain ⟨⟨line, order⟩, member, rfl⟩ := mem_map.mp ofLine
    have row : lineRow collation (entriesOf (editorLines collation items))
        (entriesOf (editorWords collation items))
        (line, order) = if sortAnnotationsWithinLine collation (takenBy collation items order) =
          [] then
          ⟨idText line, .line, line, [line]⟩
        else ⟨idText line, .word, line,
          sortAnnotationsWithinLine collation (takenBy collation items order)⟩ := rfl
    rw [row] at shown isLine ⊢
    split at shown
    · -- the row of a line without words shows the line itself
      rename_i empty
      rw [if_pos empty] at isLine
      obtain rfl := mem_singleton.mp shown
      exact absurd isWord (not_word_of_line isLine)
    · rename_i some_
      rw [if_neg some_]
      exact ⟨rfl, mem_of_getElem? (mem_zipIdx_iff_getElem?.mp member), order, rfl⟩
  · obtain ⟨opened, inside, rfl⟩ := mem_map.mp loose
    exact absurd (loose_lead_word collation inside) (not_word_of_line isLine)

theorem takenBy_sublist (order : WithTop Nat) :
    (takenBy collation items order).Sublist (sortedAnnotations collation items) := by
  have fewer : (takenBy collation items order).Sublist (editorWords collation items) := by
    have all :=
      (filter_sublist (p := fun word => decide (lineOrder (entriesOf (editorLines collation items))
      (entriesOf (editorWords collation items)) word = order)) (l :=
        entriesOf (editorWords collation items))).map (·.anno)
    rw [entriesOf_anno] at all
    exact all
  exact fewer.trans filter_sublist

def withinRow (items : List Json) (x y : Object) : Prop :=
  withinLineBefore collation x y ∧
    (withinLineBefore collation y x →
      (items.map Json.toObject).idxOf x < (items.map Json.toObject).idxOf y)

variable (page : TextPage items)
include page

theorem TextPage.sharingWords_ordered (line : Object) :
    (sharingWords collation items line).Pairwise (withinRow collation items) :=
  pairwise_insertionSort_stable ((pairwise_idxOf page.objects_nodup).sublist filter_sublist)

theorem TextPage.taken_ordered (order : WithTop Nat) :
    (sortAnnotationsWithinLine collation (takenBy collation items order)).Pairwise
      (withinRow collation items) := by
  have sorted : (sortedAnnotations collation items).Pairwise _ :=
    pairwise_insertionSort_stable (r := readsBefore collation)
      ((pairwise_idxOf page.objects_nodup).sublist filter_sublist)
  -- annotations that tie within a line tie in reading order too
  have ties : (takenBy collation items order).Pairwise fun x y => withinLineBefore collation x y →
      withinLineBefore collation y x →
      (items.map Json.toObject).idxOf x < (items.map Json.toObject).idxOf y := by
    refine (sorted.sublist (takenBy_sublist collation order)).imp ?_
    rintro x y ⟨-, stable⟩ before after
    refine stable ?_
    simp only [withinLineBefore, readsBefore] at before after ⊢
    grind
  refine (pairwise_insertionSort_stable (r := withinLineBefore collation) ties).imp ?_
  rintro x y ⟨before, stable⟩
  exact ⟨before, fun after => stable after before after⟩

theorem TextPage.row_fields_eq (exact : Arithmetic.Exact) {row : EditorRow} {word : Object}
    (listed : row ∈ groupAnnotationsForEditor collation items)
    (isLine : isLineAnnotation row.lead = true) (isWord : isWordAnnotation word = true)
    (shown : word ∈ row.fields) [DecidablePred (FirstSharing collation items row.lead)] :
    row.fields = (sharingWords collation items row.lead).filter fun word =>
      FirstSharing collation items row.lead word := by
  have naive := rows_are_naive exact collation page.rowPage
  obtain ⟨granularity, leadListed, order, fields⟩ := row_fields collation listed isLine isWord shown
  have lead : row.lead ∈ linesAndWords items :=
    (page.rowPage.mem_editorLines collation isLine).mp leadListed
  have ordered : row.fields.Pairwise (withinRow collation items) := by
    rw [fields]
    exact page.taken_ordered collation order
  have words : ∀ other ∈ row.fields, other ∈ linesAndWords items ∧ isWordAnnotation other = true := by
    intro other inside
    rw [fields, mem_sortAnnotationsWithinLine] at inside
    have isOther := mem_takenBy_isWord collation inside
    have sorted := (takenBy_sublist collation order).subset inside
    exact ⟨(page.rowPage.mem_editorWords collation isOther).mp (mem_filter.mpr ⟨sorted, isOther⟩),
      isOther⟩
  have member : ∀ other ∈ linesAndWords items, isWordAnnotation other = true →
      (other ∈ row.fields ↔ FirstSharing collation items row.lead other) := by
    intro other otherListed isOther
    rw [← naive.nested row.lead lead other otherListed isLine isOther]
    constructor
    · exact fun inside => ⟨row, listed, rfl, granularity, inside⟩
    · rintro ⟨another, anotherListed, sameLead, -, inside⟩
      obtain rfl :=
        eq_of_countP_eq_one (naive.leads row.lead lead isLine) listed anotherListed (by simp)
        (by simpa using sameLead)
      exact inside
  -- Two lists in the order of a row with the same words are equal: the order is strict.
  refine List.Perm.eq_of_pairwise ?_ ordered ((page.sharingWords_ordered collation row.lead).sublist
    filter_sublist) ?_
  · intro a b _ _ before after
    exact absurd (before.2 after.1) (lt_asymm (after.2 before.1))
  · have distinct : ∀ {l : List Object}, l.Pairwise (withinRow collation items) → l.Nodup := by
      intro l pairwise
      refine pairwise.imp fun {a b} before same => ?_
      subst same
      exact lt_irrefl _ (before.2 before.1)
    refine (perm_ext_iff_of_nodup (distinct ordered) ((distinct (page.sharingWords_ordered collation
      row.lead)).sublist filter_sublist)).mpr fun other => ?_
    rw [mem_filter, sharingWords, mem_sortAnnotationsWithinLine, mem_filter, decide_eq_true_eq]
    constructor
    · intro inside
      obtain ⟨otherListed, isOther⟩ := words other inside
      have first := (member other otherListed isOther).mp inside
      obtain ⟨before, after, split, shares, none⟩ := first
      refine ⟨⟨(mem_filter.mp otherListed).1, ?_⟩, before, after, split, shares, none⟩
      rw [isOther, annotationsShareLine_comm exact, shares]
      rfl
    · rintro ⟨⟨inside, both⟩, first⟩
      obtain ⟨isOther, -⟩ := Bool.and_eq_true_iff.mp both
      have otherListed : other ∈ linesAndWords items :=
        mem_filter.mpr ⟨inside, by rw [isOther, Bool.or_true]⟩
      exact (member other otherListed isOther).mpr first

end

/-! ## Editing a word -/

section
variable [Arithmetic] (collation : Collation) (items : List Json) (row : EditorRow) (word : Object)

/-- After the edit only the row's line may have changed, and its text is that of the row. -/
def TextFollowsRow : Prop :=
  ∃ line, synchronizeLineTextFromWords collation items word =
      (items.map fun item => if item = .obj row.lead then .obj line else item) ∧
    annotationText line = .str (joinedTexts row.fields)

/-- The line found in page order is the row's line and takes every word with a text that shares a
line with it. Or it is another line, which the edit leaves as it was, and the row's line has the
text of the row already. -/
def SearchesAgree : Prop :=
  ∃ line, matchingLine items word = some line ∧
    (line = row.lead ∧ (∀ other ∈ linesAndWords items, isWordAnnotation other = true →
        annotationText other ≠ .str "" →
        annotationsShareLine other line = true → FirstSharing collation items line other) ∨
      line ≠ row.lead ∧ updateAnnotationText line
        (joinedTexts (sharingWords collation items line)) = line ∧
        annotationText row.lead = .str (joinedTexts row.fields))

end

section
variable [Arithmetic] (collation : Collation) {items : List Json}

theorem mem_sharingWords {line word : Object} :
    word ∈ sharingWords collation items line ↔
      word ∈ linesAndWords items ∧ isWordAnnotation word = true ∧
      annotationsShareLine word line = true := by
  rw [sharingWords, mem_sortAnnotationsWithinLine, mem_filter, linesAndWords, mem_filter]
  constructor
  · rintro ⟨inside, both⟩
    obtain ⟨isWord, shares⟩ := Bool.and_eq_true_iff.mp both
    exact ⟨⟨inside, by rw [isWord, Bool.or_true]⟩, isWord, shares⟩
  · rintro ⟨⟨inside, -⟩, isWord, shares⟩
    exact ⟨inside, by rw [isWord, shares]; rfl⟩

theorem matchingLine_spec {line word : Object} (found : matchingLine items word = some line) :
    line ∈ items.map Json.toObject ∧ isLineAnnotation line = true ∧
      annotationsShareLine line word = true := by
  have both := find?_some found
  rw [Bool.and_eq_true] at both
  exact ⟨mem_of_find?_eq_some found, both⟩

theorem TextPage.obj_mem (page : TextPage items) {anno : Object}
    (listed : anno ∈ items.map Json.toObject) : Json.obj anno ∈ items := by
  obtain ⟨item, member, rfl⟩ := mem_map.mp listed
  rw [← (page.identified item member).1]
  exact member

theorem TextPage.synchronize_eq (page : TextPage items) (exact : Arithmetic.Exact) {line word : Object}
    (listed : word ∈ linesAndWords items) (isWord : isWordAnnotation word = true)
    (found : matchingLine items word = some line) :
    synchronizeLineTextFromWords collation items word = items.map fun item =>
      if item = .obj line then .obj (updateAnnotationText line
        (joinedTexts (sharingWords collation items line))) else item := by
  obtain ⟨lineListed, -, shares⟩ := matchingLine_spec found
  have some_ : sharingWords collation items line ≠ [] :=
    ne_nil_of_mem ((mem_sharingWords collation).mpr ⟨listed, isWord,
      by rw [annotationsShareLine_comm exact, shares]⟩)
  simp only [synchronizeLineTextFromWords, isWord, Bool.true_eq_false, if_false, found, some_]
  exact page.upsert (page.obj_mem lineListed) (field_updateAnnotationText_id _ _)

/-- The text of a row's line follows an edit of one of its words exactly when both searches
agree. -/
theorem row_text_follows_iff (exact : Arithmetic.Exact) (page : TextPage items) {row : EditorRow}
    {word : Object} (shownRow : row ∈ groupAnnotationsForEditor collation items)
    (isLine : isLineAnnotation row.lead = true) (isWord : isWordAnnotation word = true)
    (shown : word ∈ row.fields) :
    TextFollowsRow collation items row word ↔ SearchesAgree collation items row word := by
  classical
  have fields := page.row_fields_eq collation exact shownRow isLine isWord shown
  obtain ⟨-, leadSorted, -⟩ := row_fields collation shownRow isLine isWord shown
  have lead := (page.rowPage.mem_editorLines collation isLine).mp leadSorted
  have leadItem := page.obj_mem (mem_filter.mp lead).1
  have member := fields ▸ shown
  obtain ⟨sharing, isFirst⟩ := mem_filter.mp member
  obtain ⟨listed, -, -⟩ := (mem_sharingWords collation).mp sharing
  obtain ⟨_, _, _, shares, -⟩ := of_decide_eq_true isFirst
  obtain ⟨line, found⟩ : ∃ line, matchingLine items word = some line := by
    refine Option.isSome_iff_exists.mp (find?_isSome.mpr ⟨row.lead, (mem_filter.mp lead).1, ?_⟩)
    rw [isLine, shares]
    rfl
  obtain ⟨lineListed, -, -⟩ := matchingLine_spec found
  have texts : ∀ other ∈ sharingWords collation items row.lead, ∃ text,
      annotationText other = .str text := by
    intro other inside
    obtain ⟨otherListed, isOther, -⟩ := (mem_sharingWords collation).mp inside
    exact page.texts other otherListed isOther
  -- Both searches in terms of what is joined: the row's words, and all words sharing a line.
  have agrees_iff : SearchesAgree collation items row word ↔
      (line = row.lead ∧ joinedTexts row.fields = joinedTexts (sharingWords collation items row.lead) ∨
        line ≠ row.lead ∧ updateAnnotationText line
          (joinedTexts (sharingWords collation items line)) = line ∧
          annotationText row.lead = .str (joinedTexts row.fields)) := by
    have kept_iff :=
      joinedTexts_filter_iff (fun word => decide (FirstSharing collation items row.lead word)) texts
    rw [← fields] at kept_iff
    simp only [SearchesAgree, found, Option.some.injEq, exists_eq_left', kept_iff, mem_sharingWords,
      decide_eq_true_eq]
    refine or_congr_left (and_congr_right fun same => ?_)
    subst same
    exact ⟨fun all other inside nonempty => all other inside.1 inside.2.1 nonempty inside.2.2,
      fun all other otherListed isOther nonempty sharesToo =>
        all other ⟨otherListed, isOther, sharesToo⟩ nonempty⟩
  rw [agrees_iff, TextFollowsRow, page.synchronize_eq collation exact listed isWord found]
  -- The edit writes the row's own line, or another one and must leave both as they are.
  by_cases same : line = row.lead
  · subst same
    simp only [ne_eq, not_true_eq_false, false_and, or_false, true_and]
    constructor
    · rintro ⟨written, replaced, reads⟩
      have here := map_inj_left.mp replaced _ leadItem
      rw [if_pos rfl, if_pos rfl, Json.obj.injEq] at here
      rw [← here, annotationText_updateAnnotationText] at reads
      exact (Json.str.inj reads).symm
    · intro equal
      exact ⟨_, rfl, by rw [annotationText_updateAnnotationText, equal]⟩
  · simp only [same, false_and, false_or, ne_eq, not_false_eq_true, true_and]
    have apart : Json.obj line ≠ .obj row.lead := fun equal => same (Json.obj.inj equal)
    constructor
    · rintro ⟨written, replaced, reads⟩
      have atLine := map_inj_left.mp replaced _ (page.obj_mem lineListed)
      have atLead := map_inj_left.mp replaced _ leadItem
      rw [if_pos rfl, if_neg apart, Json.obj.injEq] at atLine
      rw [if_neg apart.symm, if_pos rfl, Json.obj.injEq] at atLead
      exact ⟨atLine, atLead ▸ reads⟩
    · rintro ⟨unchanged, reads⟩
      refine ⟨row.lead, map_congr_left fun item _ => ?_, reads⟩
      rw [unchanged]
      split <;> split <;> simp_all

end

def plainWords : List Object :=
  [shownObject "word" "A" "a" "5,2,30,16", shownObject "word" "B" "b" "60,2,30,16"]

def plainLead (text : String) : Object := shownObject "line" "L" text "0,0,100,20"

def plainRowPage : List Json := .obj (plainLead "old") :: plainWords.map .obj

theorem row_text_follows_plain_row :
    @SearchesAgree .rational codePointOrder plainRowPage ⟨"L", .word, plainLead "old", plainWords⟩
      (shownObject "word" "A" "a" "5,2,30,16") := by
  have exact : @Arithmetic.Exact .rational := fun _ => rfl
  have page : @TextPage .rational plainRowPage :=
    @TextPage.mk .rational plainRowPage (by decide +kernel) (by decide +kernel) (by decide +kernel) (by
      have texts : ∀ anno ∈ linesAndWords plainRowPage,
          annotationText anno = .str (scriptText (annotationText anno)) := by
        decide +kernel
      exact fun anno listed _ => ⟨_, texts anno listed⟩)
  refine (@row_text_follows_iff .rational codePointOrder plainRowPage exact page _ _
    (by decide +kernel) (by decide +kernel)
    (by decide +kernel) (by decide +kernel)).mp ⟨updateAnnotationText (plainLead "old") "a b", ?_, ?_⟩
  · decide +kernel
  · decide +kernel

/-- Two columns with one line each; the line of the right column comes first in the page. -/
def columnsPage : List Json :=
  [.obj (shownObject "line" "R" "right" "200,0,100,20"), .obj (plainLead "old"),
    .obj (shownObject "word" "A" "a" "5,2,30,16")]

/-- The word of the left column is shown in the row of the left line, but its edit rewrites the
right line. -/
theorem edit_rewrites_other_column :
    @TextPage .rational columnsPage ∧
      ∃ row ∈ @groupAnnotationsForEditor .rational codePointOrder columnsPage,
        row.lead = plainLead "old" ∧ isLineAnnotation row.lead = true ∧
        shownObject "word" "A" "a" "5,2,30,16" ∈ row.fields ∧
        (@synchronizeLineTextFromWords .rational codePointOrder columnsPage
          (shownObject "word" "A" "a" "5,2,30,16")).map (fun item => annotationText item.toObject) =
            [.str "a", .str "old", .str "a"] ∧
        ¬ @TextFollowsRow .rational codePointOrder columnsPage row
          (shownObject "word" "A" "a" "5,2,30,16") := by
  have texts : (@synchronizeLineTextFromWords .rational codePointOrder columnsPage
      (shownObject "word" "A" "a" "5,2,30,16")).map (fun item => annotationText item.toObject) =
        [.str "a", .str "old", .str "a"] := by decide +kernel
  have page : @TextPage .rational columnsPage :=
    @TextPage.mk .rational columnsPage (by decide +kernel) (by decide +kernel) (by decide +kernel) (by
      have strings : ∀ anno ∈ linesAndWords columnsPage,
          annotationText anno = .str (scriptText (annotationText anno)) := by
        decide +kernel
      exact fun anno listed _ => ⟨_, strings anno listed⟩)
  refine ⟨page, ⟨"L", .word, plainLead "old", [shownObject "word" "A" "a" "5,2,30,16"]⟩,
    by decide +kernel, rfl, by decide +kernel, by decide +kernel, texts, ?_⟩
  rintro ⟨line, written, -⟩
  rw [written] at texts
  have first := congrArg List.head? texts
  simp only [columnsPage, map_cons, head?_cons] at first
  rw [if_neg (by decide +kernel)] at first
  exact absurd first (by decide +kernel)

end Scribe.Editor
