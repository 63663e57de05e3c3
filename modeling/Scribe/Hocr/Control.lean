import Scribe.Hocr.Faithful

/-! The decoder follows the outline of its tokens.

A step of the decoder fails exactly when the outline refuses the token, with the same
message, and panics exactly on character data while the outline is stale. The stale
outlines are those of documents in which an open word has character data from before
the stack was moved.
-/

set_option autoImplicit false

namespace Scribe.Hocr

open Attempt List

structure Pairs (grow : Nat → Nat) (index : Nat) (frame : Frame) (mark : Mark) : Prop where
  captureText : frame.captureText = mark.isWord
  isLine : frame.isLine = mark.isLine
  bytes : frame.content.text.utf8ByteSize = mark.bytes
  addr : frame.content.addr = mark.first.map fun first => (moves grow first, index)

def Pairing (grow : Nat → Nat) : (index : Nat) → List Frame → List Mark → Prop
  | _, [], [] => True
  | index, frame :: frames, mark :: marks => Pairs grow index frame mark ∧
    Pairing grow (index + 1) frames marks
  | _, _, _ => False

section
variable {grow : Nat → Nat} {index : Nat} {frames : List Frame} {marks : List Mark}
  (pairing : Pairing grow index frames marks)
include pairing

/-- The rule for paired frames and marks. -/
@[elab_as_elim]
theorem Pairing.rule {motive : ∀ index frames marks, Pairing grow index frames marks → Prop}
    (nil : ∀ index, motive index [] [] trivial)
    (cons : ∀ {index frame frames mark marks} (pairs : Pairs grow index frame mark)
      (rest : Pairing grow (index + 1) frames marks), motive (index + 1) frames marks rest →
      motive index (frame :: frames) (mark :: marks) ⟨pairs, rest⟩) :
    motive index frames marks pairing := by
  induction frames generalizing index marks with
  | nil => cases marks with
    | nil => exact nil index
    | cons mark marks => exact pairing.elim
  | cons frame frames ih => cases marks with
    | nil => exact pairing.elim
    | cons mark marks => exact cons pairing.1 pairing.2 (ih pairing.2)

theorem Pairing.length : frames.length = marks.length := by
  induction pairing using Pairing.rule with
  | nil => rfl
  | cons _ _ ih => simp [ih]

theorem Pairing.concat {frame : Frame} {mark : Mark}
    (pairs : Pairs grow (index + frames.length) frame mark) :
    Pairing grow index (frames ++ [frame]) (marks ++ [mark]) := by
  induction pairing using Pairing.rule with
  | nil => exact ⟨pairs, trivial⟩
  | @cons index first frames _ _ here _ ih =>
    refine ⟨here, ih ?_⟩
    have same : index + 1 + frames.length = index + (first :: frames).length := by simp; omega
    exact same ▸ pairs

theorem Pairing.dropLast : Pairing grow index frames.dropLast marks.dropLast := by
  induction pairing using Pairing.rule with
  | nil => exact trivial
  | @cons _ _ frames _ marks here rest ih =>
    have same := rest.length
    cases frames with
    | nil => rw [length_eq_zero_iff.mp same.symm]; exact trivial
    | cons second frames => cases marks with
      | nil => cases same
      | cons other marks => exact ⟨here, ih⟩

theorem Pairing.any :
    frames.any (·.captureText) = marks.any (·.isWord) ∧
      frames.any (·.isLine) = marks.any (·.isLine) := by
  induction pairing using Pairing.rule with
  | nil => exact ⟨rfl, rfl⟩
  | cons here _ ih => simp only [any_cons, ih, here.captureText, here.isLine, and_self]

end

/-! ### Character data -/

/-- Some open word has text from before the last move. -/
def StaleMarks (grow : Nat → Nat) (height : Nat) (marks : List Mark) : Prop :=
  ∃ mark ∈ marks, mark.isWord = true ∧ ∃ first, mark.first = some first ∧
    moves grow first ≠ moves grow height

def tooLong (size : Nat) (mark : Mark) : Bool :=
  mark.isWord && maxHOCRWordTextBytes < mark.bytes + size

def wordsOf (marks : List Mark) : Nat := marks.countP (·.isWord)

variable {grow : Nat → Nat}

theorem writeText_of_no_word (array height : Nat) (text : String) {index : Nat} {frames : List Frame}
    {marks : List Mark} (pairing : Pairing grow index frames marks) (none : wordsOf marks = 0) :
    Decoder.writeText array text index frames = .ok frames ∧
      marks.map (Outline.Mark.write height text.utf8ByteSize) = marks := by
  induction pairing using Pairing.rule with
  | nil => exact ⟨rfl, rfl⟩
  | @cons _ frame _ mark marks here _ ih =>
    have noWord : mark.isWord = false := by
      by_contra word
      simp [wordsOf, word] at none
    obtain ⟨wrote, same⟩ := ih (by simpa [wordsOf, noWord] using none)
    have skips : frame.captureText = false := here.captureText.trans noWord
    constructor
    · simp only [Decoder.writeText, skips, Bool.false_eq_true, if_false, wrote]
      rfl
    · rw [map_cons, same, Outline.Mark.write, if_neg (by simp [noWord])]

theorem write_ok {builder : Builder} {address : Nat × Nat} (text : String)
    (stays : ∀ addr, builder.addr = some addr → addr = address) :
    builder.write address text = .ok ⟨some address, builder.text ++ text⟩ := by
  rw [Builder.write, if_pos]
  · rfl
  · cases found : builder.addr with
    | none => rfl
    | some addr => simpa using stays addr found

theorem write_panics {builder : Builder} {address addr : Nat × Nat} (text : String)
    (found : builder.addr = some addr) (moved : addr ≠ address) :
    builder.write address text = .error
      (.panic "strings: illegal use of non-zero Builder copied by value") := by
  rw [Builder.write, if_neg (by simpa [found] using moved)]
  rfl

theorem writeText_word {array index : Nat} {text : String} {height : Nat} {frame : Frame}
    {frames : List Frame} {mark : Mark} {marks : List Mark}
    (pairing : Pairing grow index (frame :: frames) (mark :: marks)) (word : mark.isWord = true)
    (none : wordsOf marks = 0) (short : ¬maxHOCRWordTextBytes < mark.bytes + text.utf8ByteSize)
    (now : array = moves grow height) :
    (∀ first, mark.first = some first → moves grow first ≠ moves grow height →
      ∃ message, Decoder.writeText array text index (frame :: frames) = .error (.panic message)) ∧
    ((∀ first, mark.first = some first → moves grow first = moves grow height) →
      ∃ written, Decoder.writeText array text index (frame :: frames) = .ok written ∧
        Pairing grow index written ((mark :: marks).map
          (Outline.Mark.write height text.utf8ByteSize))) := by
  obtain ⟨pairs, rest⟩ := pairing
  obtain ⟨wrote, same⟩ := writeText_of_no_word array height text rest none
  have captures : frame.captureText = true := pairs.captureText.trans word
  have starts : Decoder.writeText array text index (frame :: frames) = (do
      let content ← frame.content.write (array, index) text
      pure ({ frame with content } :: frames)) := by
    rw [Decoder.writeText, if_pos captures, refuse_of_not (by rw [pairs.bytes]; exact short), wrote]
    rfl
  rw [starts]
  constructor
  · intro first found moved
    have isAddr : frame.content.addr = some (moves grow first, index) := by rw [pairs.addr, found]; rfl
    rw [write_panics text isAddr fun same => moved ((Prod.mk.inj same).1.trans now)]
    exact ⟨_, rfl⟩
  · intro current
    have stays : ∀ addr, frame.content.addr = some addr → addr = (array, index) := by
      intro addr found
      rw [pairs.addr, Option.map_eq_some_iff] at found
      obtain ⟨first, isFirst, rfl⟩ := found
      rw [current first isFirst, now]
    rw [write_ok text stays]
    refine ⟨_, rfl, ⟨?_, ?_, ?_, ?_⟩, by rw [same]; exact rest⟩
    · simpa [Outline.Mark.write, word] using captures
    · simpa [Outline.Mark.write, word] using pairs.isLine
    · simp [Outline.Mark.write, word, pairs.bytes]
    · cases first : mark.first with
      | none => simp [Outline.Mark.write, word, first, now]
      | some old => simp [Outline.Mark.write, word, first, now, current old first]

theorem writeText_cases (text : String) {array index : Nat} {height : Nat} {frames : List Frame}
    {marks : List Mark} (pairing : Pairing grow index frames marks) (one : wordsOf marks ≤ 1)
    (now : array = moves grow height) : if (marks.any (tooLong text.utf8ByteSize)) = true then
      Decoder.writeText array text index frames = .error (.error Decoder.wordTextMessage)
    else (StaleMarks grow height marks ∧
        ∃ message, Decoder.writeText array text index frames = .error (.panic message)) ∨
      (¬StaleMarks grow height marks ∧ ∃ written,
        Decoder.writeText array text index frames = .ok written ∧
        Pairing grow index written (marks.map (Outline.Mark.write height text.utf8ByteSize))) := by
  -- Along the stack, where at most one frame is a word: frames that are none are skipped.
  induction pairing using Pairing.rule with
  | nil => simp [StaleMarks, Decoder.writeText, Pairing, pure, Except.pure]
  | @cons _ frame _ mark marks pairs rest ih =>
    cases word : mark.isWord with
    | false =>
      have fewer : wordsOf marks ≤ 1 := by simpa [wordsOf, word] using one
      have skips : frame.captureText = false := pairs.captureText.trans word
      have stale : StaleMarks grow height (mark :: marks) ↔ StaleMarks grow height marks := by
        simp [StaleMarks, word]
      have cases := ih fewer
      simp only [any_cons, tooLong, word, Bool.false_and, Bool.false_or] at cases ⊢
      simp only [Decoder.writeText, skips, Bool.false_eq_true, if_false, stale]
      split
      case isTrue long =>
        rw [if_pos long] at cases
        rw [cases]
        rfl
      case isFalse long =>
        rw [if_neg long] at cases
        rcases cases with ⟨isStale, message, failed⟩ | ⟨fresh, written, wrote, paired⟩
        · exact .inl ⟨isStale, message, by rw [failed]; rfl⟩
        · refine .inr ⟨fresh, frame :: written, by rw [wrote]; rfl, ?_, paired⟩
          rw [Outline.Mark.write, if_neg (by simp [word])]
          exact pairs
    | true =>
      have none : wordsOf marks = 0 := by
        have : wordsOf marks + 1 ≤ 1 := by simpa [wordsOf, word] using one
        omega
      have noWords : ∀ other ∈ marks, other.isWord = false := by
        intro other member
        simpa using countP_eq_zero.mp none other member
      have others : marks.any (tooLong text.utf8ByteSize) = false := by
        simp only [any_eq_false, tooLong]
        intro other member
        simp [noWords other member]
      simp only [any_cons, others, Bool.or_false, tooLong, word, Bool.true_and, decide_eq_true_eq]
      split
      case isTrue long =>
        rw [Decoder.writeText, if_pos (pairs.captureText.trans word),
          refuse_of (by rw [pairs.bytes]; exact long)]
        rfl
      case isFalse long =>
        obtain ⟨panics, writes⟩ := writeText_word ⟨pairs, rest⟩ word none long now
        have stale : StaleMarks grow height (mark :: marks) ↔
            ∃ first, mark.first = some first ∧ moves grow first ≠ moves grow height := by
          constructor
          · rintro ⟨other, member, isWord, old⟩
            rcases mem_cons.mp member with rfl | there
            · exact old
            · rw [noWords other there] at isWord
              cases isWord
          · exact fun old => ⟨mark, mem_cons_self, word, old⟩
        rw [stale]
        by_cases old : ∃ first, mark.first = some first ∧ moves grow first ≠ moves grow height
        · obtain ⟨first, found, moved⟩ := old
          exact .inl ⟨⟨first, found, moved⟩, panics first found moved⟩
        · refine .inr ⟨old, writes fun first found => ?_⟩
          by_contra moved
          exact old ⟨first, found, moved⟩

/-! ### Steps -/

/-- The decoder and the outline after the same tokens. -/
structure Follows (grow : Nat → Nat) (outline : Outline) (decoder : Decoder) : Prop where
  pairing : Pairing grow 0 decoder.frames.items outline.marks
  words : wordsOf outline.marks ≤ 1
  array : decoder.frames.array = moves grow outline.height
  cap : decoder.frames.cap = capacity grow decoder.frames.array
  low : outline.marks.length ≤ outline.height
  high : outline.height ≤ decoder.frames.cap
  elementCount : decoder.elementCount = outline.elementCount
  haveRoot : decoder.haveRoot = outline.haveRoot
  rootComplete : decoder.rootComplete = outline.rootComplete

theorem Follows.start : Follows grow Outline.start Decoder.start := by
  have unmoved : moves grow 0 = 0 := moves_eq_iff.mpr ⟨Nat.zero_le _, by simp⟩
  constructor <;> simp [Outline.start, Decoder.start, Pairing, wordsOf, unmoved, capacity]

theorem push_spec (frame : Frame) {frames : Frames} {height : Nat}
    (array : frames.array = moves grow height) (cap : frames.cap = capacity grow frames.array)
    (low : frames.items.length ≤ height) (high : height ≤ frames.cap) :
    (frames.push grow frame).items = frames.items ++ [frame] ∧
    (frames.push grow frame).array = moves grow (max height (frames.items.length + 1)) ∧
    (frames.push grow frame).cap = capacity grow (frames.push grow frame).array ∧
    max height (frames.items.length + 1) ≤ (frames.push grow frame).cap := by
  obtain ⟨_, outgrown⟩ := moves_eq_iff.mp array.symm
  rw [Frames.push]
  split
  case isTrue room =>
    have fits : max height (frames.items.length + 1) ≤ frames.cap := by omega
    refine ⟨rfl, (moves_eq_iff.mpr ⟨cap ▸ fits, fun fewer less => ?_⟩).symm, cap, fits⟩
    exact Nat.lt_of_lt_of_le (outgrown fewer less) (Nat.le_max_left _ _)
  case isFalse full =>
    -- a full stack has never been higher, so it has used up its capacity for the first time
    have isFull : frames.items.length = frames.cap := by omega
    have higher : max height (frames.items.length + 1) = capacity grow frames.array + 1 := by omega
    have grown : max (frames.items.length + 1) (grow frames.cap) =
        capacity grow (frames.array + 1) := by
      rw [isFull, cap, capacity]
    have more : capacity grow frames.array + 1 ≤ capacity grow (frames.array + 1) :=
      capacity_strictMono grow (Nat.lt_succ_self _)
    rw [higher]
    refine ⟨rfl, (moves_eq_iff.mpr ⟨more, fun fewer less => ?_⟩).symm, grown, grown ▸ more⟩
    exact Nat.lt_succ_of_le ((capacity_strictMono grow).monotone (Nat.le_of_lt_succ less))

section Steps

variable {outline after : Outline} {decoder : Decoder} {growth : Growth}

theorem refuse_bind_of {ε α : Type} {condition : Prop} [Decidable condition]
    (holds : condition) (cause : ε) (next : Unit → Except ε α) :
    refuse condition cause >>= next = .error cause := by
  rw [refuse_of holds]
  rfl

theorem refuse_bind_of_not {ε α : Type} {condition : Prop} [Decidable condition]
    (fails : ¬condition) (cause : ε) (next : Unit → Except ε α) :
    refuse condition cause >>= next = next () := by
  rw [refuse_of_not fails]
  rfl

theorem Represents.place {consumed : List Token} (represents : Represents consumed decoder)
    (reading : decoder.rootComplete = false) (grow : Nat → Nat) (name : Name) (attrs : List Attr) :
    (decoder.frames.items = [] → decoder.haveRoot = false) ∧
    ∃ pointer placed, Decoder.place grow ⟨name, attrs, "", Slices.Slice.nil⟩
        { decoder with elementCount := decoder.elementCount + 1 } = .ok (pointer, placed) ∧
      Placed ⟨name, attrs, "", Slices.Slice.nil⟩
        { decoder with elementCount := decoder.elementCount + 1 } pointer placed := by
  cases represents with
  | reading prolog outside frozen entries opened reads =>
    constructor
    · intro empty
      have none : entries = [] := by simpa [empty, eq_comm] using opened.framed.length
      rw [opened.haveRoot, none]
      rfl
    · obtain ⟨pointer, placed, isPlaced, place, _⟩ :=
        (opened.with_count (decoder.elementCount + 1)).place grow name attrs
      exact ⟨pointer, placed, isPlaced, place⟩
  | complete prolog epilog outside frozen root done reads =>
    rw [done.rootComplete] at reading
    cases reading

theorem Follows.startElement_error (follows : Follows growth.frames outline decoder)
    {consumed : List Token} (represents : Represents consumed decoder) {name : Name}
    {attrs : List Attr} {message : String} (failed : outline.startElement attrs = .error message) :
    decoder.startElement growth name attrs = .error (.error message) := by
  have size := follows.pairing.length
  obtain ⟨words, lines⟩ := follows.pairing.any
  simp only [Outline.startElement, refuse_bind_error_iff] at failed
  rw [← follows.rootComplete, ← follows.elementCount, ← size, ← words, ← lines] at failed
  rw [Decoder.startElement]
  rcases failed with ⟨limit, rfl⟩ | ⟨allowed, failed⟩
  · rw [refuse_bind_of limit]
  rw [refuse_bind_of_not allowed]
  rcases failed with ⟨limit, rfl⟩ | ⟨few, failed⟩
  · rw [refuse_bind_of limit]
  rw [refuse_bind_of_not few]
  rcases failed with ⟨limit, rfl⟩ | ⟨short, failed⟩
  · rw [refuse_bind_of limit]
  rw [refuse_bind_of_not short]
  have reading : decoder.rootComplete = false := by
    cases complete : decoder.rootComplete with
    | true => exact absurd (.inl complete) allowed
    | false => rfl
  obtain ⟨noRoot, pointer, placed, isPlaced, place⟩ :=
    represents.place reading growth.children name attrs
  rw [isPlaced]
  simp only [bind, Except.bind, place.loads, place.frames]
  rcases failed with ⟨⟨noMarks, haveRoot⟩, rfl⟩ | ⟨_, failed⟩
  · have empty : decoder.frames.items = [] := length_eq_zero_iff.mp (by rw [size, noMarks]; rfl)
    rw [← follows.haveRoot, noRoot empty] at haveRoot
    cases haveRoot
  rcases failed with ⟨nested, rfl⟩ | ⟨noWord, failed⟩
  · exact refuse_bind_of nested _ _
  · rcases failed with ⟨nested, rfl⟩ | ⟨_, failed⟩
    · exact (refuse_bind_of_not noWord _ _).trans (refuse_bind_of nested _ _)
    · cases failed

theorem wordsOf_concat {marks : List Mark} {mark : Mark} (one : wordsOf marks ≤ 1)
    (nested : ¬(mark.isWord = true ∧ marks.any (·.isWord) = true)) :
    wordsOf (marks ++ [mark]) ≤ 1 := by
  simp only [wordsOf, countP_append, countP_singleton] at one ⊢
  split
  case isTrue word =>
    have none : ∀ other ∈ marks, other.isWord = false := by
      intro other member
      cases isWord : other.isWord with
      | false => rfl
      | true => exact absurd ⟨word, any_eq_true.mpr ⟨other, member, isWord⟩⟩ nested
    have zero : marks.countP (·.isWord) = 0 :=
      countP_eq_zero.mpr fun other member => by simp [none other member]
    omega
  case isFalse => omega

section
variable (follows : Follows growth.frames outline decoder)
include follows

theorem Follows.startElement_ok {consumed : List Token}
    (represents : Represents consumed decoder) {name : Name} {attrs : List Attr}
    (done : outline.startElement attrs = .ok after) :
    ∃ next, decoder.startElement growth name attrs = .ok next ∧ Follows growth.frames after next := by
  have size := follows.pairing.length
  obtain ⟨words, lines⟩ := follows.pairing.any
  simp only [Outline.startElement, bind_ok_iff, refuse_ok_iff, exists_const, pure_ok_iff] at done
  rw [← follows.rootComplete, ← follows.elementCount, ← size, ← words, ← lines] at done
  obtain ⟨allowed, few, short, _, noWord, noLine, rfl⟩ := done
  have reading : decoder.rootComplete = false := by
    cases complete : decoder.rootComplete with
    | true => exact absurd (.inl complete) allowed
    | false => rfl
  obtain ⟨_, pointer, placed, isPlaced, place⟩ := represents.place reading growth.children name attrs
  obtain ⟨items, array, cap, high⟩ := push_spec ⟨pointer, isWord attrs, isLine attrs, ⟨none, ""⟩⟩
    follows.array follows.cap (size ▸ follows.low) follows.high
  refine ⟨{ placed with frames := decoder.frames.push growth.frames ⟨pointer, isWord attrs,
    isLine attrs, ⟨none, ""⟩⟩ }, ?_, ?_⟩
  · rw [Decoder.startElement, refuse_bind_of_not allowed, refuse_bind_of_not few,
      refuse_bind_of_not short, isPlaced]
    simp only [bind, Except.bind, place.loads, place.frames]
    exact (refuse_bind_of_not noWord _ _).trans (refuse_bind_of_not noLine _ _)
  · rw [words] at noWord
    refine ⟨?_, wordsOf_concat follows.words noWord, array, cap, ?_, high, ?_, ?_, ?_⟩
    · simp only [items]
      exact follows.pairing.concat ⟨rfl, rfl, rfl, rfl⟩
    · simp only [length_append, length_singleton, size]
      omega
    · exact place.elementCount
    · exact place.haveRoot
    · exact place.rootComplete

theorem Follows.charData_error {text message : String}
    (failed : outline.charData text = .error message) :
    decoder.charData text = .error (.error message) := by
  have size := follows.pairing.length
  rw [Outline.charData] at failed
  rw [Decoder.charData]
  split at failed
  case isTrue noMarks =>
    have empty : decoder.frames.items = [] := length_eq_zero_iff.mp (by rw [size, noMarks]; rfl)
    rw [refuse_bind_error_iff] at failed
    rcases failed with ⟨blank, rfl⟩ | ⟨_, failed⟩
    · rw [if_pos empty, refuse_bind_of blank]
    · cases failed
  case isFalse marks =>
    have filled : decoder.frames.items ≠ [] :=
      fun empty => marks (length_eq_zero_iff.mp (by rw [← size, empty]; rfl))
    rw [refuse_bind_error_iff] at failed
    rcases failed with ⟨long, rfl⟩ | ⟨_, failed⟩
    · have cases := writeText_cases text follows.pairing follows.words follows.array
      rw [if_pos (show outline.marks.any (tooLong text.utf8ByteSize) = true from long)] at cases
      rw [if_neg filled, cases]
      rfl
    · cases failed

theorem Follows.charData_ok {text : String} (done : outline.charData text = .ok after) :
    (outline.Stale growth.frames ∧ ∃ message, decoder.charData text = .error (.panic message)) ∨
    (¬outline.Stale growth.frames ∧ ∃ next, decoder.charData text = .ok next ∧
      Follows growth.frames after next) := by
  have size := follows.pairing.length
  rw [Outline.charData] at done
  rw [Decoder.charData]
  split at done
  case isTrue noMarks =>
    have empty : decoder.frames.items = [] := length_eq_zero_iff.mp (by rw [size, noMarks]; rfl)
    simp only [bind_ok_iff, refuse_ok_iff, exists_const, pure_ok_iff] at done
    obtain ⟨blank, rfl⟩ := done
    refine .inr ⟨by simp [Outline.Stale, noMarks], decoder, ?_, follows⟩
    rw [if_pos empty, refuse_bind_of_not blank]
    rfl
  case isFalse marks =>
    have filled : decoder.frames.items ≠ [] :=
      fun empty => marks (length_eq_zero_iff.mp (by rw [← size, empty]; rfl))
    simp only [bind_ok_iff, refuse_ok_iff, exists_const, pure_ok_iff] at done
    obtain ⟨short, rfl⟩ := done
    have cases := writeText_cases text follows.pairing follows.words follows.array
    rw [if_neg (show ¬outline.marks.any (tooLong text.utf8ByteSize) = true from short)] at cases
    rw [if_neg filled]
    rcases cases with ⟨stale, message, panics⟩ | ⟨fresh, written, wrote, pairing⟩
    · refine .inl ⟨stale, message, ?_⟩
      rw [panics]
      rfl
    · refine .inr ⟨fresh, _, by rw [wrote]; rfl, ?_⟩
      refine ⟨pairing, ?_, follows.array, follows.cap, ?_, follows.high, follows.elementCount,
        follows.haveRoot, follows.rootComplete⟩
      · have same :
            wordsOf (outline.marks.map (Outline.Mark.write outline.height text.utf8ByteSize)) =
                wordsOf outline.marks := by
          simp only [wordsOf, countP_map]
          refine countP_congr fun mark _ => ?_
          simp only [Function.comp, Outline.Mark.write]
          split <;> simp_all
        exact same ▸ follows.words
      · simpa using follows.low

theorem Follows.endElement_error {message : String}
    (failed : outline.endElement = .error message) : decoder.endElement = .error (.error message) := by
  rw [Outline.endElement, refuse_bind_error_iff] at failed
  rcases failed with ⟨noMarks, rfl⟩ | ⟨_, failed⟩
  · have empty : decoder.frames.items = [] :=
      length_eq_zero_iff.mp (by rw [follows.pairing.length, noMarks]; rfl)
    simp only [Decoder.endElement, empty, getLast?_nil]
    rfl
  · cases failed

end

theorem fill_frames (decoder : Decoder) (frame : Frame) :
    (decoder.fill frame).frames = decoder.frames ∧
      (decoder.fill frame).elementCount = decoder.elementCount ∧
    (decoder.fill frame).haveRoot = decoder.haveRoot ∧
    (decoder.fill frame).rootComplete = decoder.rootComplete := by
  rw [Decoder.fill]
  split
  · exact store_frames decoder _ _
  · exact ⟨rfl, rfl, rfl, rfl⟩

theorem Follows.endElement_ok (follows : Follows growth.frames outline decoder)
    (done : outline.endElement = .ok after) :
    ∃ next, decoder.endElement = .ok next ∧ Follows growth.frames after next := by
  have size := follows.pairing.length
  simp only [Outline.endElement, bind_ok_iff, refuse_ok_iff, exists_const, pure_ok_iff] at done
  obtain ⟨marks, rfl⟩ := done
  cases isLast : decoder.frames.items.getLast? with
  | none =>
    have empty := getLast?_eq_none_iff.mp isLast
    exact absurd (length_eq_zero_iff.mp (by rw [← size, empty]; rfl)) marks
  | some frame =>
    have fewer : wordsOf outline.marks.dropLast ≤ wordsOf outline.marks :=
      (dropLast_sublist _).countP_le
    have isEmpty : decoder.frames.items.dropLast.isEmpty = outline.marks.dropLast.isEmpty := by
      rw [Bool.eq_iff_iff, isEmpty_iff_length_eq_zero, isEmpty_iff_length_eq_zero,
        follows.pairing.dropLast.length]
    simp only [Decoder.endElement, isLast]
    have same := fill_frames decoder frame
    generalize decoder.fill frame = filled at same ⊢
    obtain ⟨_, _, _, _, _, _⟩ := filled
    obtain ⟨rfl, rfl, rfl, rfl⟩ := same
    refine ⟨_, rfl, { follows with
      pairing := follows.pairing.dropLast
      words := Nat.le_trans fewer follows.words
      low := ?_
      rootComplete := by rw [follows.rootComplete, isEmpty] }⟩
    have := follows.low
    simp only [length_dropLast]
    omega

/-- Character data while an open word has text from before the last move. -/
def StaleText (grow : Nat → Nat) (outline : Outline) (token : Token) : Prop :=
  (∃ text, token = .charData text) ∧ outline.Stale grow

theorem Follows.step_error (follows : Follows growth.frames outline decoder) {consumed : List Token}
    (represents : Represents consumed decoder) {token : Token} {message : String}
    (failed : outline.step token = .error message) :
    decoder.step growth token = .error (.error message) := by
  cases token with
  | startElement name attrs => exact follows.startElement_error represents failed
  | charData text => exact follows.charData_error failed
  | endElement => exact follows.endElement_error failed
  | other => cases failed

theorem Follows.step_ok (follows : Follows growth.frames outline decoder) {consumed : List Token}
    (represents : Represents consumed decoder) {token : Token}
    (done : outline.step token = .ok after) :
    (StaleText growth.frames outline token ∧ ∃ message,
      decoder.step growth token = .error (.panic message)) ∨
    (¬StaleText growth.frames outline token ∧
      ∃ next, decoder.step growth token = .ok next ∧ Follows growth.frames after next) := by
  have notText : token.isText = false → ¬StaleText growth.frames outline token := by
    rintro notText ⟨⟨_, rfl⟩, _⟩
    cases notText
  cases token with
  | startElement name attrs => exact .inr ⟨notText rfl, follows.startElement_ok represents done⟩
  | charData text =>
    rcases follows.charData_ok done with ⟨stale, panics⟩ | ⟨fresh, stepped⟩
    · exact .inl ⟨⟨⟨text, rfl⟩, stale⟩, panics⟩
    · exact .inr ⟨fun isStale => fresh isStale.2, stepped⟩
  | endElement => exact .inr ⟨notText rfl, follows.endElement_ok done⟩
  | other =>
    simp only [Outline.step, pure_ok_iff] at done
    subst done
    exact .inr ⟨notText rfl, decoder, rfl, follows⟩

end Steps

end Scribe.Hocr
