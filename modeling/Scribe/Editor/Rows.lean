import Scribe.Editor.Grouping

/-! Which row a word is in.

Both passes query the lines that the word's height admits, so together they find
the first line in reading order whose band the word's band meets. The rows then
hold every word once: under that line, or among the loose words.
-/

set_option autoImplicit false

namespace Scribe.Editor

open List

variable [Arithmetic]

namespace Pass

def meets (pass : Pass) (line word : VerticalEntry) : Prop :=
  (pass.linePoint line).start ≤ Arithmetic.add word.center
    (Arithmetic.mul word.height pass.wordReach) ∧
    Arithmetic.sub word.center (Arithmetic.mul word.height pass.wordReach) ≤
      (pass.linePoint line).finish

instance (pass : Pass) (line word : VerticalEntry) : Decidable (pass.meets line word) :=
  inferInstanceAs (Decidable (_ ∧ _))

variable {pass : Pass}

instance : Std.Total pass.before := ⟨fun a b => by
  cases pass <;> simp only [before] <;> grind⟩

instance : IsTrans VerticalEntry pass.before := ⟨fun a b c => by
  cases pass <;> simp only [before] <;> grind⟩

omit [Arithmetic] in
/-- A line admitted at one height was admitted before every line entered after it. -/
theorem admits_of_before {line later : VerticalEntry} {height : ℚ} (ordered : pass.before line later)
    (admitted : pass.admits later.height height) : pass.admits line.height height := by
  cases pass <;> simp only [before, admits, decide_eq_true_eq] at * <;> grind

omit [Arithmetic] in
theorem admits_later {word later : VerticalEntry} {height : ℚ} (ordered : pass.before word later)
    (admitted : pass.admits height word.height) : pass.admits height later.height := by
  cases pass <;> simp only [before, admits, decide_eq_true_eq] at * <;> grind

theorem enterLines_eq (height : ℚ) (lines : List VerticalEntry) (index : IntervalOrderIndex ℚ) :
    pass.enterLines height lines index =
      (lines.dropWhile fun line => pass.admits line.height height,
        ((lines.takeWhile fun line => pass.admits line.height height).map pass.linePoint).foldl
          IntervalOrderIndex.add index) := by
  induction lines generalizing index with
  | nil => rfl
  | cons line rest ih =>
    by_cases admitted : pass.admits line.height height
    · simp [enterLines, admitted, ih]
    · simp [enterLines, admitted]

omit [Arithmetic] in
theorem not_admits_of_mem_dropWhile {lines : List VerticalEntry}
    (ordered : lines.Pairwise pass.before) {height : ℚ} {line : VerticalEntry}
    (pending : line ∈ lines.dropWhile fun line => pass.admits line.height height) :
    ¬ pass.admits line.height height := by
  induction lines with
  | nil => simp at pending
  | cons first rest ih =>
    obtain ⟨early, orderedRest⟩ := pairwise_cons.mp ordered
    by_cases admitted : pass.admits first.height height
    · simp only [dropWhile_cons, admitted, if_true] at pending
      exact ih orderedRest pending
    · simp only [dropWhile_cons, admitted, if_false, Bool.false_eq_true] at pending
      rcases mem_cons.mp pending with rfl | later
      · exact admitted
      · exact fun late => admitted (admits_of_before (early line later) late)

theorem queryWords_other {words lines : List VerticalEntry} {index : IntervalOrderIndex ℚ}
    {result : Nat → WithTop Nat} {order : Nat} (absent : order ∉ words.map (·.order)) :
    pass.queryWords words lines index result order = result order := by
  induction words generalizing lines index result with
  | nil => rfl
  | cons word rest ih =>
    obtain ⟨apart, absentRest⟩ : order ≠ word.order ∧ order ∉ rest.map (·.order) := by
      simpa only [map_cons, mem_cons, not_or] using absent
    simp only [queryWords, enterLines_eq]
    rw [ih absentRest, Function.update_of_ne apart]

/-- The loop answers every word with the least order of the admitted lines that it meets. The lines
entered so far and the pending ones stay the same together; the first are admitted for all words
left. -/
theorem queryWords_le_iff (known entered : List VerticalEntry) {words pending : List VerticalEntry}
    (result : Nat → WithTop Nat) (wordsOrdered : words.Pairwise pass.before)
    (pendingOrdered : pending.Pairwise pass.before) (distinct : (words.map (·.order)).Nodup)
    (listed : entered ++ pending ⊆ known)
    (admitted : ∀ line ∈ entered, ∀ word ∈ words, pass.admits line.height word.height)
    {word : VerticalEntry} (member : word ∈ words) (bound : Nat) :
    pass.queryWords words pending ((entered.map pass.linePoint).foldl IntervalOrderIndex.add
        (createIntervalOrderIndex (known.map pass.linePoint))) result word.order ≤ bound ↔
      ∃ line ∈ entered ++ pending, pass.admits line.height word.height ∧ pass.meets line word ∧
        line.order ≤ bound := by
  induction words generalizing entered pending result with
  | nil => simp at member
  | cons first rest ih =>
    obtain ⟨early, orderedRest⟩ := pairwise_cons.mp wordsOrdered
    obtain ⟨fresh, distinctRest⟩ := nodup_cons.mp distinct
    let taken := pending.takeWhile fun line => pass.admits line.height first.height
    let left := pending.dropWhile fun line => pass.admits line.height first.height
    have split : taken ++ left = pending := takeWhile_append_dropWhile
    have together : (entered ++ taken) ++ left = entered ++ pending := by rw [append_assoc, split]
    have admittedFirst : ∀ line ∈ entered ++ taken, pass.admits line.height first.height := by
      intro line inside
      rcases mem_append.mp inside with old | new
      · exact admitted line old first mem_cons_self
      · exact (mem_takeWhile_imp new : _)
    simp only [queryWords, enterLines_eq]
    rw [← foldl_append, ← map_append]
    change pass.queryWords rest left _ _ _ ≤ _ ↔ _
    rcases mem_cons.mp member with rfl | later
    · -- The word that is queried now: exactly the lines entered by now are admitted.
      rw [queryWords_other fresh, Function.update_self, queryWord,
        IntervalOrderIndex.firstIntersecting_le_iff (map_subset _ fun line inside =>
          listed (together ▸ mem_append_left left inside)), ← together]
      constructor
      · rintro ⟨point, inside, meeting, least⟩
        obtain ⟨line, entered', rfl⟩ := mem_map.mp inside
        exact ⟨line, mem_append_left _ entered', admittedFirst line entered', meeting, least⟩
      · rintro ⟨line, inside, admits, meeting, least⟩
        rcases mem_append.mp inside with here | waiting
        · exact ⟨pass.linePoint line, mem_map_of_mem here, meeting, least⟩
        · exact absurd admits (not_admits_of_mem_dropWhile pendingOrdered waiting)
    · rw [ih (entered ++ taken) _ orderedRest (pendingOrdered.sublist (dropWhile_sublist _))
        distinctRest (together ▸ listed) ?_ later, together]
      exact fun line inside word after => admits_later (early word after) (admittedFirst line inside)

end Pass

theorem earliestLineOrders_le_iff {lines words : List VerticalEntry}
    (distinct : (words.map (·.order)).Nodup) (pass : Pass) {word : VerticalEntry}
    (member : word ∈ words) (bound : Nat) : earliestLineOrders lines words pass word.order ≤ bound ↔
      ∃ line ∈ lines, pass.admits line.height word.height ∧ pass.meets line word ∧
        line.order ≤ bound := by
  have sorted :=
    Pass.queryWords_le_iff lines [] (fun _ => ⊤) (words.pairwise_insertionSort pass.before)
      (lines.pairwise_insertionSort pass.before)
      ((((words.perm_insertionSort pass.before).map (·.order)).nodup_iff).mpr distinct)
      (by simpa using (lines.perm_insertionSort pass.before).subset) (by simp)
      ((mem_insertionSort _).mpr member) bound
  simpa [earliestLineOrders] using sorted

/-! ## The line of a word -/

def VerticalEntry.meets (line word : VerticalEntry) : Prop :=
  (if word.height ≤ line.height then Pass.tall else Pass.short).meets line word

/-- The editor draws the bands of two annotations so that they meet. -/
def bandsMeet (line word : Object) : Prop := (verticalEntry (line, 0)).meets (verticalEntry (word, 0))

instance (line word : Object) : Decidable (bandsMeet line word) :=
  inferInstanceAs (Decidable (Pass.meets _ _ _))

theorem lineOrder_le_iff {lines words : List VerticalEntry} (distinct : (words.map (·.order)).Nodup)
    {word : VerticalEntry} (member : word ∈ words) (bound : Nat) :
    lineOrder lines words word ≤ bound ↔ ∃ line ∈ lines, line.meets word ∧ line.order ≤ bound := by
  rw [lineOrder, min_le_iff, earliestLineOrders_le_iff distinct .tall member,
    earliestLineOrders_le_iff distinct .short member]
  simp only [VerticalEntry.meets, Pass.admits, decide_eq_true_eq]
  constructor
  · rintro (⟨line, inside, high, meets, least⟩ | ⟨line, inside, low, meets, least⟩)
    · exact ⟨line, inside, by rwa [if_pos high], least⟩
    · exact ⟨line, inside, by rwa [if_neg (not_le.mpr low)], least⟩
  · rintro ⟨line, inside, meets, least⟩
    by_cases high : word.height ≤ line.height
    · rw [if_pos high] at meets
      exact .inl ⟨line, inside, high, meets, least⟩
    · rw [if_neg high] at meets
      exact .inr ⟨line, inside, not_le.mp high, meets, least⟩

theorem mem_entriesOf {annotations : List Object} {entry : VerticalEntry} :
    entry ∈ entriesOf annotations ↔ ∃ anno position, annotations[position]? = some anno ∧
      entry = verticalEntry (anno, position) := by
  simp only [entriesOf, mem_map, Prod.exists, mem_zipIdx_iff_getElem?]
  exact ⟨fun ⟨anno, position, found, same⟩ => ⟨anno, position, found, same.symm⟩,
    fun ⟨anno, position, found, same⟩ => ⟨anno, position, found, same.symm⟩⟩

theorem entriesOf_orders (annotations : List Object) :
    (entriesOf annotations).map (·.order) = List.range annotations.length := by
  have orders : (fun entry : VerticalEntry => entry.order) ∘ verticalEntry = Prod.snd := rfl
  rw [entriesOf, map_map, orders, zipIdx_map_snd, range_eq_range']

section
variable (lines : List Object) {words : List Object} {word : Object} {position : Nat}
  (found : words[position]? = some word)
include found

theorem lineOrder_entries_le_iff (bound : Nat) :
    lineOrder (entriesOf lines) (entriesOf words) (verticalEntry (word, position)) ≤ bound ↔
      ∃ order ≤ bound, ∃ line, lines[order]? = some line ∧ bandsMeet line word := by
  have distinct : ((entriesOf words).map (·.order)).Nodup := by
    rw [entriesOf_orders]
    exact nodup_range
  rw [lineOrder_le_iff distinct (mem_entriesOf.mpr ⟨word, position, found, rfl⟩)]
  constructor
  · rintro ⟨entry, inside, meets, least⟩
    obtain ⟨line, order, at_, rfl⟩ := mem_entriesOf.mp inside
    exact ⟨order, least, line, at_, meets⟩
  · rintro ⟨order, least, line, at_, meets⟩
    exact ⟨verticalEntry (line, order), mem_entriesOf.mpr ⟨line, order, at_, rfl⟩, meets, least⟩

theorem lineOrder_eq_top_iff :
    lineOrder (entriesOf lines) (entriesOf words) (verticalEntry (word, position)) = ⊤ ↔
      ∀ line ∈ lines, ¬ bandsMeet line word := by
  constructor
  · intro top line inside meets
    obtain ⟨order, at_⟩ := mem_iff_getElem?.mp inside
    have reached := (lineOrder_entries_le_iff lines found order).mpr ⟨order, le_rfl, line, at_, meets⟩
    rw [top] at reached
    simp at reached
  · intro none
    by_contra finite
    obtain ⟨order, same⟩ := WithTop.ne_top_iff_exists.mp finite
    obtain ⟨_, _, line, at_, meets⟩ := (lineOrder_entries_le_iff lines found order).mp same.symm.le
    exact none line (mem_of_getElem? at_) meets

theorem lineOrder_eq_iff {order : Nat} :
    lineOrder (entriesOf lines) (entriesOf words) (verticalEntry (word, position)) = order ↔
      (∃ line, lines[order]? = some line ∧ bandsMeet line word) ∧
        ∀ earlier < order, ∀ line, lines[earlier]? = some line → ¬ bandsMeet line word := by
  constructor
  · intro same
    have none : ∀ earlier < order, ∀ line, lines[earlier]? = some line → ¬ bandsMeet line word := by
      intro earlier less line at_ meets
      have reached :=
        (lineOrder_entries_le_iff lines found earlier).mpr ⟨earlier, le_rfl, line, at_, meets⟩
      rw [same] at reached
      exact absurd (WithTop.coe_le_coe.mp reached) (not_le.mpr less)
    obtain ⟨least, within, line, at_, meets⟩ := (lineOrder_entries_le_iff lines found order).mp same.le
    rcases lt_or_eq_of_le within with less | rfl
    · exact absurd meets (none least less line at_)
    · exact ⟨⟨line, at_, meets⟩, none⟩
  · rintro ⟨⟨line, at_, meets⟩, none⟩
    have reached := (lineOrder_entries_le_iff lines found order).mpr ⟨order, le_rfl, line, at_, meets⟩
    refine le_antisymm reached ?_
    by_contra below
    obtain ⟨least, same⟩ :=
      WithTop.ne_top_iff_exists.mp (ne_top_of_le_ne_top (WithTop.coe_ne_top) reached)
    rw [← same, not_le] at below
    obtain ⟨earlier, within, other, otherAt, otherMeets⟩ :=
      (lineOrder_entries_le_iff lines found least).mp same.symm.le
    exact none earlier (lt_of_le_of_lt within (WithTop.coe_lt_coe.mp below)) other otherAt otherMeets

end

theorem mem_looseWords {lines : List VerticalEntry} {words : List Object} {word : Object} :
    word ∈ looseWords lines (entriesOf words) ↔
      ∃ position, words[position]? = some word ∧
        lineOrder lines (entriesOf words) (verticalEntry (word, position)) = ⊤ := by
  simp only [looseWords, mem_map, mem_filter, decide_eq_true_eq]
  constructor
  · rintro ⟨entry, ⟨member, top⟩, rfl⟩
    obtain ⟨anno, position, found, rfl⟩ := mem_entriesOf.mp member
    exact ⟨position, found, top⟩
  · rintro ⟨position, found, top⟩
    exact ⟨_, ⟨mem_entriesOf.mpr ⟨word, position, found, rfl⟩, top⟩, rfl⟩

/-! ## Rows -/

/-- A row of a line holds the word. -/
def NestedUnder (rows : List EditorRow) (line word : Object) : Prop :=
  ∃ row ∈ rows, row.lead = line ∧ row.granularity = .word ∧ word ∈ row.fields

def LeftLoose (rows : List EditorRow) (word : Object) : Prop :=
  ∃ row ∈ rows, isWordAnnotation row.lead ∧ word ∈ row.fields

omit [Arithmetic] in
theorem not_word_of_line {anno : Object} (line : isLineAnnotation anno) : ¬ isWordAnnotation anno := by
  simp only [decide_eq_true_eq, isLineAnnotation, isWordAnnotation] at line ⊢
  rw [line]
  decide

theorem addLooseWord_cases (rows : List EditorRow) (word : Object) :
    addLooseWord rows word = rows ++ [wordRow word] ∨
      ∃ before row, rows = before ++ [row] ∧
        addLooseWord rows word = before ++ [{ row with fields := row.fields ++ [word] }] := by
  rcases eq_nil_or_concat rows with rfl | ⟨before, row, rfl⟩
  · exact .inl rfl
  · rw [concat_eq_append]
    by_cases joins : annotationsShareLine row.lead word
    · exact .inr ⟨before, row, rfl, by simp [addLooseWord, joins]⟩
    · exact .inl (by simp [addLooseWord, joins])

theorem addLooseWord_lead {rows : List EditorRow} {word : Object} {row : EditorRow}
    (member : row ∈ addLooseWord rows word) : (∃ old ∈ rows, row.lead = old.lead) ∨
      row.lead = word := by
  rcases addLooseWord_cases rows word with opened | ⟨before, last, rfl, joined⟩
  · rw [opened, mem_append, mem_singleton] at member
    rcases member with old | rfl
    · exact .inl ⟨row, old, rfl⟩
    · exact .inr rfl
  · rw [joined, mem_append, mem_singleton] at member
    rcases member with old | rfl
    · exact .inl ⟨row, mem_append_left _ old, rfl⟩
    · exact .inl ⟨last, by simp, rfl⟩

theorem mem_fields_addLooseWord {rows : List EditorRow} {word field : Object} :
    (∃ row ∈ addLooseWord rows word, field ∈ row.fields) ↔ (∃ row ∈ rows, field ∈ row.fields) ∨
      field = word := by
  rcases addLooseWord_cases rows word with opened | ⟨before, last, rfl, joined⟩
  · simp [opened, wordRow, or_and_right, exists_or]
  · simp [joined, or_and_right, exists_or, or_assoc]

theorem foldl_addLooseWord_lead {loose : List Object} {rows : List EditorRow} {row : EditorRow}
    (member : row ∈ loose.foldl addLooseWord rows) :
    (∃ old ∈ rows, row.lead = old.lead) ∨ row.lead ∈ loose := by
  induction loose generalizing rows with
  | nil => exact .inl ⟨row, member, rfl⟩
  | cons word rest ih =>
    rcases ih member with ⟨old, oldMember, lead⟩ | later
    · rcases addLooseWord_lead oldMember with ⟨older, olderMember, same⟩ | same
      · exact .inl ⟨older, olderMember, lead.trans same⟩
      · exact .inr (mem_cons.mpr (.inl (lead.trans same)))
    · exact .inr (mem_cons_of_mem _ later)

theorem mem_fields_foldl_addLooseWord {loose : List Object} {rows : List EditorRow} {field : Object} :
    (∃ row ∈ loose.foldl addLooseWord rows, field ∈ row.fields) ↔
      (∃ row ∈ rows, field ∈ row.fields) ∨ field ∈ loose := by
  induction loose generalizing rows with
  | nil => simp
  | cons word rest ih => rw [foldl_cons, ih, mem_fields_addLooseWord, mem_cons, or_assoc]

section
variable (collation : Collation)

instance : Std.Total (readsBefore collation) := ⟨fun a b => by
  have ids := collation.total (idText a) (idText b)
  simp only [readsBefore]
  grind⟩

instance : IsTrans Object (readsBefore collation) := ⟨fun a b c first second => by
  have ids := collation.trans (idText a) (idText b) (idText c)
  simp only [readsBefore] at first second ⊢
  grind⟩

instance : Std.Total (withinLineBefore collation) := ⟨fun a b => by
  have ids := collation.total (idText a) (idText b)
  simp only [withinLineBefore]
  grind⟩

instance : IsTrans Object (withinLineBefore collation) := ⟨fun a b c first second => by
  have ids := collation.trans (idText a) (idText b) (idText c)
  simp only [withinLineBefore] at first second ⊢
  grind⟩

theorem mem_sortAnnotationsWithinLine {annotations : List Object} {anno : Object} :
    anno ∈ sortAnnotationsWithinLine collation annotations ↔ anno ∈ annotations := by
  simp [sortAnnotationsWithinLine]

theorem lineRow_nests_iff {lines words : List VerticalEntry} {line : Object × Nat} {word : Object} :
    (lineRow collation lines words line).granularity = .word ∧
      word ∈ (lineRow collation lines words line).fields ↔
      ∃ entry ∈ words, lineOrder lines words entry = line.2 ∧ entry.anno = word := by
  have taken : word ∈ sortAnnotationsWithinLine collation
      ((words.filter fun word => lineOrder lines words word = line.2).map (·.anno)) ↔
        ∃ entry ∈ words, lineOrder lines words entry = line.2 ∧ entry.anno = word := by
    simp [mem_sortAnnotationsWithinLine, and_assoc]
  rw [← taken, lineRow]
  by_cases empty : sortAnnotationsWithinLine collation
      ((words.filter fun word => lineOrder lines words word = line.2).map (·.anno)) = []
  · simp [empty]
  · simp [empty]

theorem lineRow_lead (lines words : List VerticalEntry) (line : Object × Nat) :
    (lineRow collation lines words line).lead = line.1 := by
  rw [lineRow]
  split <;> rfl

def editorLines (items : List Json) : List Object :=
  (sortedAnnotations collation items).filter isLineAnnotation

def editorWords (items : List Json) : List Object :=
  (sortedAnnotations collation items).filter isWordAnnotation

section
variable {items : List Json} {word : Object} (isWord : word ∈ editorWords collation items)
include isWord

theorem mem_groupAnnotationsForEditor {row : EditorRow} :
    row ∈ groupAnnotationsForEditor collation items ↔
      (∃ line order, (editorLines collation items)[order]? = some line ∧
        row = lineRow collation (entriesOf (editorLines collation items))
          (entriesOf (editorWords collation items)) (line, order)) ∨
      ∃ loose ∈ (looseWords (entriesOf (editorLines collation items))
          (entriesOf (editorWords collation items))).foldl addLooseWord [],
        row = { loose with fields := sortAnnotationsWithinLine collation loose.fields } := by
  have some_ : (sortedAnnotations collation items).filter isWordAnnotation ≠ [] := ne_nil_of_mem isWord
  simp only [groupAnnotationsForEditor, some_, if_false, mem_insertionSort, mem_append, mem_map,
    Prod.exists, mem_zipIdx_iff_getElem?]
  simp only [editorLines, editorWords, eq_comm]

end

theorem loose_lead_word {items : List Json} {lines : List VerticalEntry} {row : EditorRow}
    (member : row ∈ (looseWords lines (entriesOf (editorWords collation items))).foldl
      addLooseWord []) :
    isWordAnnotation row.lead := by
  rcases foldl_addLooseWord_lead member with ⟨_, impossible, _⟩ | lead
  · cases impossible
  · obtain ⟨position, found, -⟩ := mem_looseWords.mp lead
    exact of_mem_filter (mem_of_getElem? found)

/-- A word is nested under a line exactly when the line is the first whose band it meets. -/
theorem nestedUnder_iff {items : List Json} {line word : Object}
    (isLine : line ∈ editorLines collation items) (isWord : word ∈ editorWords collation items) :
    NestedUnder (groupAnnotationsForEditor collation items) line word ↔
      ∃ before after, editorLines collation items = before ++ line :: after ∧ bandsMeet line word ∧
        ∀ other ∈ before, ¬ bandsMeet other word := by
  constructor
  · rintro ⟨row, member, lead, nests⟩
    rcases (mem_groupAnnotationsForEditor collation isWord).mp member with
        ⟨at_, order, found, rfl⟩ | ⟨loose, looseMember, rfl⟩
    · obtain rfl : at_ = line := (lineRow_lead collation _ _ _).symm.trans lead
      obtain ⟨entry, entryMember, takes, rfl⟩ := (lineRow_nests_iff collation).mp nests
      obtain ⟨anno, position, wordFound, rfl⟩ := mem_entriesOf.mp entryMember
      obtain ⟨⟨other, otherFound, meets⟩, none⟩ := (lineOrder_eq_iff _ wordFound).mp takes
      obtain rfl : at_ = other := Option.some.inj (found.symm.trans otherFound)
      obtain ⟨inside, rfl⟩ := List.getElem?_eq_some_iff.mp found
      refine ⟨(editorLines collation items).take order,
        (editorLines collation items).drop (order + 1), ?_, meets, ?_⟩
      · rw [getElem_cons_drop, take_append_drop]
      · intro earlier early
        obtain ⟨position', earlierFound⟩ := mem_iff_getElem?.mp early
        rw [getElem?_take] at earlierFound
        split at earlierFound
        · exact none position' ‹_› earlier earlierFound
        · cases earlierFound
    · -- A loose row is led by a word, not by a line.
      have leadWord := loose_lead_word collation looseMember
      exact absurd leadWord (not_word_of_line (lead ▸ of_mem_filter isLine))
  · rintro ⟨before, after, split, meets, none⟩
    obtain ⟨position, wordFound⟩ := mem_iff_getElem?.mp isWord
    have found : (editorLines collation items)[before.length]? = some line := by
      rw [split]
      simp
    have takes : lineOrder (entriesOf (editorLines collation items))
        (entriesOf (editorWords collation items))
        (verticalEntry (word, position)) = before.length := by
      refine (lineOrder_eq_iff _ wordFound).mpr ⟨⟨line, found, meets⟩,
        fun earlier less other otherFound => none other ?_⟩
      rw [split, getElem?_append_left less] at otherFound
      exact mem_of_getElem? otherFound
    refine ⟨_, (mem_groupAnnotationsForEditor collation isWord).mpr
      (.inl ⟨line, before.length, found, rfl⟩), lineRow_lead collation _ _ _,
        (lineRow_nests_iff collation).mpr ?_⟩
    exact ⟨_, mem_entriesOf.mpr ⟨word, position, wordFound, rfl⟩, takes, rfl⟩

theorem leftLoose_iff {items : List Json} {word : Object}
    (isWord : word ∈ editorWords collation items) :
    LeftLoose (groupAnnotationsForEditor collation items) word ↔
      ∀ line ∈ editorLines collation items, ¬ bandsMeet line word := by
  constructor
  · rintro ⟨row, member, leadWord, inFields⟩
    rcases (mem_groupAnnotationsForEditor collation isWord).mp member with
        ⟨line, order, found, rfl⟩ | ⟨loose, looseMember, rfl⟩
    · rw [lineRow_lead] at leadWord
      exact absurd leadWord (not_word_of_line (of_mem_filter (mem_of_getElem? found)))
    · rw [mem_sortAnnotationsWithinLine] at inFields
      rcases mem_fields_foldl_addLooseWord.mp ⟨loose, looseMember, inFields⟩ with
          ⟨_, impossible, _⟩ | listed
      · cases impossible
      · obtain ⟨position, wordFound, top⟩ := mem_looseWords.mp listed
        exact (lineOrder_eq_top_iff _ wordFound).mp top
  · intro none
    obtain ⟨position, wordFound⟩ := mem_iff_getElem?.mp isWord
    have listed :=
      mem_looseWords.mpr ⟨position, wordFound, (lineOrder_eq_top_iff _ wordFound).mpr none⟩
    obtain ⟨loose, looseMember, inFields⟩ := mem_fields_foldl_addLooseWord.mpr (.inr listed)
    have lead : isWordAnnotation loose.lead := loose_lead_word collation looseMember
    exact ⟨_, (mem_groupAnnotationsForEditor collation isWord).mpr (.inr ⟨loose, looseMember, rfl⟩),
      lead, (mem_sortAnnotationsWithinLine collation).mpr inFields⟩

end

end Scribe.Editor
