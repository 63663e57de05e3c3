import Scribe.Hocr.Document

/-! Stale outlines, read off the tokens.

Every mark of an outline belongs to a start tag that is still open, and remembers how
deep the document had been at the first character data after it. A stale outline is one
with a word whose first character data is older than the last move of the stack.
-/

set_option autoImplicit false

namespace Scribe.Hocr

open Attempt List

/-! ### Depths -/

theorem foldl_max_le_iff {values : List Nat} {start bound : Nat} :
    values.foldl max start ≤ bound ↔ start ≤ bound ∧ ∀ value ∈ values, value ≤ bound := by
  induction values generalizing start with
  | nil => simp
  | cons value rest ih => simp [ih, and_assoc]

theorem heightOf_le_iff {tokens : List Token} {bound : Nat} :
    heightOf tokens ≤ bound ↔ ∀ position ≤ tokens.length,
      openCount (tokens.take position) ≤ bound := by
  rw [heightOf, foldl_max_le_iff]
  simp only [Nat.zero_le, true_and, mem_map, mem_range, forall_exists_index, and_imp,
    forall_apply_eq_imp_iff₂, Nat.lt_succ_iff]

theorem openCount_take_le {tokens : List Token} {position : Nat} (within : position ≤ tokens.length) :
    openCount (tokens.take position) ≤ heightOf tokens :=
  heightOf_le_iff.mp (Nat.le_refl _) position within

theorem heightOf_take_le (tokens : List Token) (position : Nat) :
    heightOf (tokens.take position) ≤ heightOf tokens := by
  rw [heightOf_le_iff]
  intro earlier within
  rw [length_take] at within
  rw [take_take]
  exact openCount_take_le (by omega)

theorem heightOf_concat (tokens : List Token) (token : Token) :
    heightOf (tokens ++ [token]) = max (heightOf tokens) (openCount (tokens ++ [token])) := by
  apply Nat.le_antisymm
  · rw [heightOf_le_iff]
    intro position within
    by_cases last : position ≤ tokens.length
    · rw [take_append_of_le_length last]
      exact Nat.le_trans (openCount_take_le last) (Nat.le_max_left _ _)
    · rw [take_of_length_le (by simp; omega)]
      exact Nat.le_max_right _ _
  · refine Nat.max_le.mpr ⟨?_, ?_⟩
    · have earlier := heightOf_take_le (tokens ++ [token]) tokens.length
      rwa [take_left'  rfl] at earlier
    · have whole := openCount_take_le (Nat.le_refl (tokens ++ [token]).length)
      rwa [take_length] at whole

/-! ### Marks -/

def StaysOpen (tokens : List Token) (opened : Nat) : Prop :=
  ∀ later, opened < later → later ≤ tokens.length →
    openCount (tokens.take opened) < openCount (tokens.take later)

/-- The greatest depth before the first character data after a position. -/
inductive FirstText (tokens : List Token) (opened : Nat) : Option Nat → Prop where
  | silent (never : ∀ position text, opened < position → tokens[position]? ≠ some (.charData text)) :
      FirstText tokens opened none
  | spoken (written : Nat) (text : String) (after : opened < written) (found : tokens[written]? =
      some (.charData text))
      (first : ∀ position text, opened < position → tokens[position]? = some (.charData text) →
        written ≤ position) :
      FirstText tokens opened (some (heightOf (tokens.take written)))

structure Marks (tokens : List Token) (index : Nat) (mark : Mark) (opened : Nat) (name : Name)
    (attrs : List Attr) : Prop where
  start : tokens[opened]? = some (.startElement name attrs)
  around : openCount (tokens.take opened) = index
  stays : StaysOpen tokens opened
  isWord : mark.isWord = Hocr.isWord attrs
  text : mark.isWord = true → FirstText tokens opened mark.first

/-- The outline of some tokens. -/
structure Outlines (tokens : List Token) (outline : Outline) : Prop where
  balanced : tokens.countP Token.isStart = tokens.countP Token.isEnd + outline.marks.length
  height : outline.height = heightOf tokens
  marks : ∀ index mark, outline.marks[index]? = some mark → ∃ opened name attrs,
    Marks tokens index mark opened name attrs

section Marks

variable {tokens : List Token} {outline : Outline}

theorem Outlines.openCount_eq (outlines : Outlines tokens outline) :
    openCount tokens = outline.marks.length := by
  have := outlines.balanced
  rw [openCount]
  omega

theorem getElem?_concat_of_some {tokens : List Token} {position : Nat} {found token : Token}
    (here : (tokens ++ [token])[position]? = some found) :
    tokens[position]? = some found ∨ (position = tokens.length ∧ token = found) := by
  rw [getElem?_append] at here
  split at here
  · exact .inl here
  · rename_i past
    have last : position - tokens.length = 0 := by
      have := (List.getElem?_eq_some_iff.mp here).1
      simpa using this
    rw [last] at here
    exact .inr ⟨by omega, by simpa using here⟩

theorem lt_length_of_some {tokens : List Token} {position : Nat} {token : Token}
    (here : tokens[position]? = some token) :
    position < tokens.length := (List.getElem?_eq_some_iff.mp here).1

theorem FirstText.concat {opened : Nat} {first : Option Nat} (text : FirstText tokens opened first)
    {token : Token} (notText : token.isText = false) : FirstText (tokens ++ [token]) opened first := by
  have old : ∀ (position : Nat) (value : String),
      (tokens ++ [token])[position]? = some (.charData value) →
      tokens[position]? = some (.charData value) := by
    intro position value here
    rcases getElem?_concat_of_some here with there | ⟨_, rfl⟩
    · exact there
    · cases notText
  cases text with
  | silent never =>
    exact .silent fun position value after here =>
      never position value after (old position value here)
  | spoken written value after found first =>
    have within := lt_length_of_some found
    have same : (tokens ++ [token]).take written = tokens.take written :=
      take_append_of_le_length (by omega)
    rw [← same]
    refine .spoken written value after (by rw [getElem?_append_left within, found]) ?_
    exact fun position value after here => first position value after (old position value here)

theorem FirstText.write {opened : Nat} {first : Option Nat} (text : FirstText tokens opened first)
    (within : opened < tokens.length) (value : String) :
    FirstText (tokens ++ [.charData value]) opened (some (first.getD (heightOf tokens))) := by
  cases text with
  | silent never =>
    have same : (tokens ++ [Token.charData value]).take tokens.length = tokens := take_left' rfl
    have isFirst : FirstText (tokens ++ [.charData value]) opened
        (some (heightOf ((tokens ++ [Token.charData value]).take tokens.length))) := by
      refine .spoken tokens.length value within (by simp) fun position other after here => ?_
      rcases getElem?_concat_of_some here with there | ⟨rfl, _⟩
      · exact absurd there (never position other after)
      · exact Nat.le_refl _
    rw [same] at isFirst
    exact isFirst
  | spoken written old after found first =>
    have isOld := lt_length_of_some found
    have same : (tokens ++ [Token.charData value]).take written = tokens.take written :=
      take_append_of_le_length (by omega)
    rw [Option.getD_some, ← same]
    refine .spoken written old after (by rw [getElem?_append_left isOld, found])
      fun position other after here => ?_
    rcases getElem?_concat_of_some here with there | ⟨rfl, _⟩
    · exact first position other after there
    · omega

theorem StaysOpen.concat {opened index : Nat} (stays : StaysOpen tokens opened)
    (within : opened < tokens.length) (around : openCount (tokens.take opened) = index)
    {token : Token} (more : index < openCount (tokens ++ [token])) :
    StaysOpen (tokens ++ [token]) opened := by
  intro later after bound
  rw [take_append_of_le_length (Nat.le_of_lt within)]
  by_cases last : later ≤ tokens.length
  · rw [take_append_of_le_length last]
    exact stays later after last
  · have whole : (tokens ++ [token]).take later = tokens ++ [token] :=
      take_of_length_le (by simp; omega)
    rw [whole, around]
    exact more

theorem Marks.concat {index opened : Nat} {mark marked : Mark} {name : Name} {attrs : List Attr}
    {token : Token} (marks : Marks tokens index mark opened name attrs)
    (more : index < openCount (tokens ++ [token])) (same : marked.isWord = mark.isWord)
    (text : mark.isWord = true → FirstText (tokens ++ [token]) opened marked.first) :
    Marks (tokens ++ [token]) index marked opened name attrs := by
  have within := lt_length_of_some marks.start
  refine ⟨?_, ?_, marks.stays.concat within marks.around more, same.trans marks.isWord, ?_⟩
  · rw [getElem?_append_left within, marks.start]
  · rw [take_append_of_le_length (by omega), marks.around]
  · rw [same]
    exact text

theorem Outlines.start : Outlines [] Outline.start := by
  refine ⟨rfl, rfl, ?_⟩
  simp [Outline.start]

theorem Outlines.startElement {after : Outline} (outlines : Outlines tokens outline) {name : Name}
    {attrs : List Attr} (done : outline.startElement attrs = .ok after) :
    Outlines (tokens ++ [.startElement name attrs]) after := by
  simp only [Outline.startElement, bind_ok_iff, pure_ok_iff] at done
  obtain ⟨_, _, _, _, _, _, _, _, _, _, _, _, rfl⟩ := done
  have balanced := outlines.balanced
  have openNow : openCount (tokens ++ [.startElement name attrs]) = outline.marks.length + 1 := by
    simp only [openCount, countP_append, countP_singleton, Token.isStart, Token.isEnd]
    simp
    omega
  refine ⟨?_, ?_, ?_⟩
  · simp only [countP_append, countP_singleton, Token.isStart, Token.isEnd, length_append]
    simp
    omega
  · rw [heightOf_concat, openNow, outlines.height]
  · intro index mark here
    rw [getElem?_append] at here
    split at here
    -- Elements open before stay open; the new one has no text yet.
    case isTrue old =>
      obtain ⟨opened, openName, openAttrs, marks⟩ := outlines.marks index mark here
      exact ⟨opened, openName, openAttrs, marks.concat (by omega) rfl fun word =>
        (marks.text word).concat rfl⟩
    case isFalse new =>
      have isLast : index = outline.marks.length := by
        have := (List.getElem?_eq_some_iff.mp here).1
        simp at this
        omega
      subst isLast
      rw [Nat.sub_self, getElem?_cons_zero, Option.some.injEq] at here
      subst here
      refine ⟨tokens.length, name, attrs, by simp, ?_, ?_, rfl, fun _ => .silent ?_⟩
      · rw [take_left' rfl, outlines.openCount_eq]
      · intro later after bound
        have isEnd : later = tokens.length + 1 := by simp at bound; omega
        rw [take_left' rfl, isEnd, take_of_length_le (by simp), openNow, outlines.openCount_eq]
        omega
      · intro position value after here
        have := lt_length_of_some here
        simp at this
        omega

theorem Outlines.charData {after : Outline} (outlines : Outlines tokens outline) {value : String}
    (done : outline.charData value = .ok after) : Outlines (tokens ++ [.charData value]) after := by
  have isAfter : after = { outline with marks := outline.marks.map (Outline.Mark.write
      outline.height value.utf8ByteSize) } := by
    rw [Outline.charData] at done
    split at done
    case isTrue noMarks =>
      simp only [bind_ok_iff, pure_ok_iff] at done
      obtain ⟨_, _, rfl⟩ := done
      rw [noMarks, map_nil, ← noMarks]
    case isFalse =>
      simp only [bind_ok_iff, pure_ok_iff] at done
      obtain ⟨_, _, rfl⟩ := done
      rfl
  subst isAfter
  have openNow : openCount (tokens ++ [.charData value]) = openCount tokens := by
    simp [openCount, countP_append, Token.isStart, Token.isEnd]
  have isOpen := outlines.openCount_eq
  have low : openCount tokens ≤ heightOf tokens := by
    simpa using openCount_take_le (Nat.le_refl tokens.length)
  refine ⟨?_, ?_, ?_⟩
  · simpa [countP_append, Token.isStart, Token.isEnd] using outlines.balanced
  · rw [heightOf_concat, openNow, Nat.max_eq_left low]
    exact outlines.height
  · intro index mark here
    rw [getElem?_map, Option.map_eq_some_iff] at here
    obtain ⟨old, found, rfl⟩ := here
    obtain ⟨opened, name, attrs, marks⟩ := outlines.marks index old found
    have within := (List.getElem?_eq_some_iff.mp found).1
    refine ⟨opened, name, attrs, marks.concat (by omega) ?_ fun word => ?_⟩
    · rw [Outline.Mark.write]
      split <;> rfl
    · rw [Outline.Mark.write, if_pos word, outlines.height]
      exact (marks.text word).write (lt_length_of_some marks.start) value

theorem Outlines.endElement {after : Outline} (outlines : Outlines tokens outline)
    (done : outline.endElement = .ok after) : Outlines (tokens ++ [.endElement]) after := by
  have balanced := outlines.balanced
  have filled : outline.marks ≠ [] := by
    intro empty
    simp [Outline.endElement, refuse, empty, bind, Except.bind, throw, throwThe,
      MonadExceptOf.throw] at done
  have size : outline.marks.length ≠ 0 := fun none => filled (length_eq_zero_iff.mp none)
  simp only [Outline.endElement, bind_ok_iff, pure_ok_iff] at done
  obtain ⟨_, _, rfl⟩ := done
  have openNow : openCount (tokens ++ [.endElement]) = outline.marks.length - 1 := by
    simp only [openCount, countP_append, countP_singleton, Token.isStart, Token.isEnd]
    simp
    omega
  have low : openCount tokens ≤ heightOf tokens := by
    simpa using openCount_take_le (Nat.le_refl tokens.length)
  have isOpen := outlines.openCount_eq
  refine ⟨?_, ?_, ?_⟩
  · simp only [countP_append, countP_singleton, Token.isStart, Token.isEnd, length_dropLast]
    simp
    omega
  · rw [heightOf_concat, openNow, Nat.max_eq_left (by omega)]
    exact outlines.height
  · intro index mark here
    have within : index < outline.marks.length - 1 := by
      simpa using (List.getElem?_eq_some_iff.mp here).1
    rw [getElem?_dropLast, if_pos within] at here
    obtain ⟨opened, name, attrs, marks⟩ := outlines.marks index mark here
    exact ⟨opened, name, attrs, marks.concat (by omega) rfl fun word => (marks.text word).concat rfl⟩

theorem Outlines.other (outlines : Outlines tokens outline) :
    Outlines (tokens ++ [.other]) outline := by
  have openNow : openCount (tokens ++ [.other]) = openCount tokens := by
    simp [openCount, countP_append, Token.isStart, Token.isEnd]
  have isOpen := outlines.openCount_eq
  have low : openCount tokens ≤ heightOf tokens := by
    simpa using openCount_take_le (Nat.le_refl tokens.length)
  refine ⟨?_, ?_, ?_⟩
  · simpa [countP_append, Token.isStart, Token.isEnd] using outlines.balanced
  · rw [heightOf_concat, openNow, Nat.max_eq_left low]
    exact outlines.height
  · intro index mark here
    obtain ⟨opened, name, attrs, marks⟩ := outlines.marks index mark here
    have within := (List.getElem?_eq_some_iff.mp here).1
    exact ⟨opened, name, attrs, marks.concat (by omega) rfl fun word => (marks.text word).concat rfl⟩

theorem outlines_of_ok (done : Outline.ofTokens tokens = .ok outline) : Outlines tokens outline := by
  refine foldlM_invariant Outlines done Outlines.start ?_
  intro consumed token rest state next _ outlines stepped
  cases token with
  | startElement name attrs => exact outlines.startElement stepped
  | charData value => exact outlines.charData stepped
  | endElement => exact outlines.endElement stepped
  | other =>
    simp only [Outline.step, pure_ok_iff] at stepped
    exact stepped ▸ outlines.other

end Marks

/-! ### Stale outlines -/

theorem StaysOpen.unique {tokens : List Token} {first second : Nat} (stays : StaysOpen tokens first)
    (staysToo : StaysOpen tokens second) (within : first < tokens.length)
    (withinToo : second < tokens.length)
    (same : openCount (tokens.take first) = openCount (tokens.take second)) : first = second := by
  rcases Nat.lt_trichotomy first second with before | rfl | after
  · have := stays second before (Nat.le_of_lt withinToo)
    omega
  · rfl
  · have := staysToo first after (Nat.le_of_lt within)
    omega

/-- The words that are open at the end and have text from before the stack was moved the last
time. -/
theorem Outlines.stale_iff {tokens : List Token} {outline : Outline}
    (outlines : Outlines tokens outline) (grow : Nat → Nat) : outline.Stale grow ↔
      Outgrown grow tokens tokens.length := by
  constructor
  · rintro ⟨mark, member, isWord, old, isFirst, moved⟩
    obtain ⟨index, within, rfl⟩ := getElem_of_mem member
    obtain ⟨opened, name, attrs, marks⟩ := outlines.marks index _ (getElem?_eq_getElem within)
    have text := marks.text isWord
    rw [isFirst] at text
    cases text with
    | spoken written value after found first =>
      have le : moves grow (heightOf (tokens.take written)) ≤ moves grow (heightOf tokens) :=
        moves_mono (heightOf_take_le tokens written)
      rw [outlines.height] at moved
      obtain ⟨full, room, outgrown⟩ := moves_lt_iff.mp (Nat.lt_of_le_of_ne le moved)
      exact ⟨opened, written, full, name, attrs, value, after, lt_length_of_some found, marks.start,
        marks.isWord ▸ isWord, found, marks.stays, room, by rwa [take_length]⟩
  · rintro ⟨opened, written, full, name, attrs, value, after, within, start, isWord, found, stays,
      room, outgrown⟩
    have openNow := stays tokens.length (by omega) (Nat.le_refl _)
    rw [take_length, outlines.openCount_eq] at openNow
    obtain ⟨startToo, openName, openAttrs, marks⟩ :=
      outlines.marks _ _ (getElem?_eq_getElem openNow)
    -- The mark at this depth belongs to the element, since both stay open from there on.
    have same : startToo = opened :=
      marks.stays.unique stays (lt_length_of_some marks.start) (lt_length_of_some start)
      marks.around
    subst same
    rw [marks.start, Option.some.injEq, Token.startElement.injEq] at start
    obtain ⟨rfl, rfl⟩ := start
    have text := marks.text (marks.isWord.trans isWord)
    refine ⟨_, getElem_mem openNow, marks.isWord.trans isWord, ?_⟩
    cases isFirst : (outline.marks[openCount (tokens.take startToo)]).first with
    | none =>
      rw [isFirst] at text
      cases text with
      | silent never => exact absurd found (never written value after)
    | some old =>
      rw [isFirst] at text
      cases text with
      | spoken earliest _ _ _ first =>
        have earlier := first written value after found
        have low : heightOf (tokens.take earliest) ≤ heightOf (tokens.take written) := by
          have := heightOf_take_le (tokens.take written) earliest
          rwa [take_take, Nat.min_eq_left earlier] at this
        rw [take_length] at outgrown
        refine ⟨_, rfl, Nat.ne_of_lt ?_⟩
        rw [outlines.height]
        exact moves_lt_iff.mpr ⟨full, Nat.le_trans low room, outgrown⟩

end Scribe.Hocr
