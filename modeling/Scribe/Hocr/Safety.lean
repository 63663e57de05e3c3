import Scribe.Hocr.Control
import Scribe.Hocr.Positions

/-! When the decoder panics and when its tree is the document.

A run of the decoder ends in the state of its tokens, with the error of their limits, or
in a panic at character data in an outgrown word. The tree of a successful run is the
document, unless there is no element at all.
-/

set_option autoImplicit false

namespace Scribe.Hocr

open Attempt List

/-- Character data that meets the limits and that an open word cannot take. -/
def StaleAt (grow : Nat → Nat) (tokens : List Token) (position : Nat) : Prop :=
  ∃ text outline after, tokens[position]? = some (.charData text) ∧
    Outline.ofTokens (tokens.take position) = .ok outline ∧
    outline.Stale grow ∧ outline.step (.charData text) = .ok after

/-- How a run over some tokens ends. -/
inductive Ends (growth : Growth) (tokens : List Token) : Prop where
  | done (decoder : Decoder) (outline : Outline)
      (ran : tokens.foldlM (Decoder.step growth) Decoder.start = .ok decoder)
      (limits : Outline.ofTokens tokens = .ok outline) (represents : Represents tokens decoder)
      (follows : Follows growth.frames outline decoder) (fresh : ∀ position,
        ¬StaleAt growth.frames tokens position)
  | refused (message : String) (ran : tokens.foldlM (Decoder.step growth) Decoder.start =
      .error (.error message))
      (limits : Outline.ofTokens tokens = .error message) (fresh : ∀ position,
        ¬StaleAt growth.frames tokens position)
  | panicked (message : String) (ran : tokens.foldlM (Decoder.step growth) Decoder.start =
      .error (.panic message))
      (position : Nat) (stale : StaleAt growth.frames tokens position)

theorem ofTokens_concat (tokens : List Token) (token : Token) :
    Outline.ofTokens (tokens ++ [token]) = Outline.ofTokens tokens >>= (Outline.step · token) := by
  simp only [Outline.ofTokens, foldlM_append, foldlM_cons, foldlM_nil, bind_pure]

theorem run_concat (growth : Growth) (tokens : List Token) (token : Token) :
    (tokens ++ [token]).foldlM (Decoder.step growth) Decoder.start =
      tokens.foldlM (Decoder.step growth) Decoder.start >>= (Decoder.step growth · token) := by
  simp only [foldlM_append, foldlM_cons, foldlM_nil, bind_pure]

theorem staleAt_concat {grow : Nat → Nat} {tokens : List Token} {token : Token} {position : Nat} :
    StaleAt grow (tokens ++ [token]) position ↔ StaleAt grow tokens position ∨
      (position = tokens.length ∧
      ∃ outline after, Outline.ofTokens tokens = .ok outline ∧
        StaleText grow outline token ∧ outline.step token = .ok after) := by
  constructor
  · rintro ⟨text, outline, after, here, before, stale, stepped⟩
    rcases getElem?_concat_of_some here with there | ⟨rfl, rfl⟩
    · rw [take_append_of_le_length (Nat.le_of_lt (lt_length_of_some there))] at before
      exact .inl ⟨text, outline, after, there, before, stale, stepped⟩
    · rw [take_left' rfl] at before
      exact .inr ⟨rfl, outline, after, before, ⟨⟨text, rfl⟩, stale⟩, stepped⟩
  · rintro (⟨text, outline, after, there, before, stale, stepped⟩ | ⟨rfl, outline, after, before,
      ⟨⟨text, rfl⟩, stale⟩, stepped⟩)
    · have within := lt_length_of_some there
      refine ⟨text, outline, after, ?_, ?_, stale, stepped⟩
      · rw [getElem?_append_left within, there]
      · rw [take_append_of_le_length (Nat.le_of_lt within), before]
    · exact ⟨text, outline, after, by simp, by rw [take_left' rfl, before], stale, stepped⟩

theorem ends (growth : Growth) (tokens : List Token) : Ends growth tokens := by
  -- By the last token: the decoder and the limits go on from where they were together.
  induction tokens using List.reverseRecOn with
  | nil =>
    refine .done Decoder.start Outline.start rfl rfl Represents.start Follows.start
      fun position stale => ?_
    obtain ⟨_, _, _, here, _⟩ := stale
    simp at here
  | append_singleton tokens token ih =>
    have sameRun := run_concat growth tokens token
    have sameLimits := ofTokens_concat tokens token
    cases ih with
    | done decoder outline ran limits represents follows fresh =>
      rw [ran] at sameRun
      rw [limits] at sameLimits
      have last : ∀ position, StaleAt growth.frames (tokens ++ [token]) position →
          StaleText growth.frames outline token ∧ ∃ after, outline.step token = .ok after := by
        intro position stale
        rcases staleAt_concat.mp stale with old | ⟨_, found, after, isOutline, staleText, stepped⟩
        · exact absurd old (fresh position)
        · rw [limits, Except.ok.injEq] at isOutline
          subst isOutline
          exact ⟨staleText, after, stepped⟩
      cases stepped : outline.step token with
      | error message =>
        refine .refused message (sameRun.trans (follows.step_error represents stepped))
          (sameLimits.trans stepped) ?_
        intro position stale
        obtain ⟨_, after, isOk⟩ := last position stale
        rw [stepped] at isOk
        cases isOk
      | ok after =>
        rcases follows.step_ok represents stepped with
            ⟨staleText, message, panics⟩ | ⟨notStale, next, done, followsNext⟩
        · exact .panicked message (sameRun.trans panics) tokens.length
            (staleAt_concat.mpr (.inr ⟨rfl, outline, after, limits, staleText, stepped⟩))
        · exact .done next after (sameRun.trans done) (sameLimits.trans stepped)
            (represents.step done) followsNext
            fun position stale => notStale (last position stale).1
    | refused message ran limits fresh =>
      rw [ran] at sameRun
      rw [limits] at sameLimits
      refine .refused message sameRun sameLimits fun position stale => ?_
      rcases staleAt_concat.mp stale with old | ⟨_, _, _, isOk, _⟩
      · exact fresh position old
      · rw [limits] at isOk
        cases isOk
    | panicked message ran position stale =>
      rw [ran] at sameRun
      exact .panicked message sameRun position (staleAt_concat.mpr (.inl stale))

/-- The decoder refuses a document with the error of its limits, however its slices grow, and panics
at character data within the limits in a word that has text from before the stack was moved. -/
theorem decoder_stops_iff (growth : Growth) (tokens : List Token) :
    (∀ message, tokens.foldlM (Decoder.step growth) Decoder.start = .error (.error message) ↔
      Outline.ofTokens tokens = .error message ∧ ∀ position, ¬StaleAt growth.frames tokens position) ∧
    ((∃ message, tokens.foldlM (Decoder.step growth) Decoder.start = .error (.panic message)) ↔
      ∃ position, StaleAt growth.frames tokens position) := by
  cases ends growth tokens with
  | done _ _ ran limits _ _ fresh => simp [ran, limits, fresh]
  | refused _ ran limits fresh => simp [ran, limits, fresh]
  | panicked _ ran position stale =>
    have found : ∃ position, StaleAt growth.frames tokens position := ⟨position, stale⟩
    simp [ran, found]

/-! ### Stale positions -/

theorem outgrown_take {grow : Nat → Nat} {tokens : List Token} {position : Nat}
    (within : position ≤ tokens.length) :
    Outgrown grow (tokens.take position) (tokens.take position).length ↔
      Outgrown grow tokens position := by
  have size : (tokens.take position).length = position := by simpa using within
  have taken : ∀ later, later ≤ position → (tokens.take position).take later = tokens.take later := by
    intro later le
    rw [take_take, Nat.min_eq_left le]
  have found : ∀ earlier, earlier < position → (tokens.take position)[earlier]? = tokens[earlier]? :=
    fun earlier before => getElem?_take_of_lt before
  rw [size]
  constructor
  · rintro ⟨opened, written, full, name, attrs, text, after, before, start, isWord,
      isText, stays, moved⟩
    rw [found opened (by omega)] at start
    rw [found written before] at isText
    rw [taken written (by omega), taken position (Nat.le_refl _)] at moved
    refine ⟨opened, written, full, name, attrs, text, after, before, start, isWord, isText,
      fun later past bound => ?_, moved⟩
    have here := stays later past bound
    rwa [taken opened (by omega), taken later bound] at here
  · rintro ⟨opened, written, full, name, attrs, text, after, before, start, isWord,
      isText, stays, moved⟩
    rw [← found opened (by omega)] at start
    rw [← found written before] at isText
    refine ⟨opened, written, full, name, attrs, text, after, before, start, isWord, isText,
      fun later past bound => ?_, ?_⟩
    · rw [taken opened (by omega), taken later bound]
      exact stays later past bound
    · rw [taken written (by omega), taken position (Nat.le_refl _)]
      exact moved

theorem staleAt_iff {grow : Nat → Nat} {tokens : List Token} {position : Nat} :
    StaleAt grow tokens position ↔ (∃ text, tokens[position]? = some (.charData text)) ∧
      (Outline.ofTokens (tokens.take (position + 1))).isOk = true ∧ Outgrown grow tokens position := by
  constructor
  · rintro ⟨text, outline, after, here, before, stale, stepped⟩
    have within := lt_length_of_some here
    refine ⟨⟨text, here⟩, ?_, ?_⟩
    · rw [take_add_one, here, Option.toList_some, ofTokens_concat, before]
      change (outline.step (.charData text)).isOk = true
      rw [stepped]
      rfl
    · rw [← outgrown_take (Nat.le_of_lt within)]
      exact ((outlines_of_ok before).stale_iff grow).mp stale
  · rintro ⟨⟨text, here⟩, isOk, outgrown⟩
    have within := lt_length_of_some here
    rw [take_add_one, here, Option.toList_some, ofTokens_concat] at isOk
    cases before : Outline.ofTokens (tokens.take position) with
    | error message =>
      rw [before] at isOk
      cases isOk
    | ok outline =>
      rw [before] at isOk
      cases stepped : outline.step (.charData text) with
      | error message =>
        change (outline.step (.charData text)).isOk = true at isOk
        rw [stepped] at isOk
        cases isOk
      | ok after =>
        rw [← outgrown_take (Nat.le_of_lt within)] at outgrown
        exact ⟨text, outline, after, here, before,
          ((outlines_of_ok before).stale_iff grow).mpr outgrown, stepped⟩

/-! ### Documents without elements -/

def Token.isBlank : Token → Bool
  | .charData text => Go.trimSpace text = ""
  | .other => true
  | .startElement _ _ | .endElement => false

theorem ofTokens_of_blank {tokens : List Token} (blank : tokens.all Token.isBlank = true) :
    Outline.ofTokens tokens = .ok Outline.start := by
  induction tokens using List.reverseRecOn with
  | nil => rfl
  | append_singleton tokens token ih =>
    simp only [all_append, Bool.and_eq_true, all_cons, all_nil, and_true] at blank
    rw [ofTokens_concat, ih blank.1]
    cases token with
    | startElement name attrs => cases blank.2
    | charData text =>
      have isBlank : Go.trimSpace text = "" := by simpa [Token.isBlank] using blank.2
      simp [bind, Except.bind, Outline.step, Outline.charData, Outline.start, refuse, isBlank,
        pure, Except.pure]
    | endElement => cases blank.2
    | other => rfl

theorem blank_of_outside {tokens : List Token} {outline : Outline}
    (limits : Outline.ofTokens tokens = .ok outline) (outside : tokens.all Token.outside = true) :
    tokens.all Token.isBlank = true := by
  induction tokens using List.reverseRecOn generalizing outline with
  | nil => rfl
  | append_singleton tokens token ih =>
    simp only [all_append, Bool.and_eq_true, all_cons, all_nil, and_true] at outside ⊢
    rw [ofTokens_concat, bind_ok_iff] at limits
    obtain ⟨before, limitsBefore, stepped⟩ := limits
    have blank := ih limitsBefore outside.1
    refine ⟨blank, ?_⟩
    rw [ofTokens_of_blank blank, Except.ok.injEq] at limitsBefore
    subst limitsBefore
    cases token with
    | startElement name attrs => cases outside.2
    | charData text =>
      simp only [Outline.step, Outline.charData, Outline.start, if_pos, bind_ok_iff,
        refuse_ok_iff, exists_const, ne_eq, Decidable.not_not] at stepped
      simpa [Token.isBlank] using stepped.1
    | endElement => cases outside.2
    | other => rfl

theorem Node.start_of_trees {root : Node} {tree : Tree} (isRoot : root.trees = [tree]) :
    ∃ token ∈ root.tokens, token.isBlank = false ∧ token.outside = false := by
  cases root with
  | element name attrs content => exact ⟨.startElement name attrs, by simp [Node.tokens], rfl, rfl⟩
  | text value => cases isRoot
  | other => cases isRoot

theorem start_of_open (entry : Pointer × Level) (rest : List (Pointer × Level)) :
    ∃ token ∈ openTokens (entry :: rest), token.isBlank = false :=
  ⟨.startElement entry.2.name entry.2.attrs, by simp [openTokens], rfl⟩

/-! ### Decoding -/

def panics {α : Type} : Except Stop α → Bool
  | .error (.panic _) => true
  | .error (.error _) | .ok _ => false

section Decoding

variable {growth : Growth} {tokens : List Token}

theorem Complete.faithful {decoder : Decoder} {frozen : List Nat} {root : Node}
    (done : Complete decoder frozen root) {prolog epilog : List Token}
    (outside : (prolog.all Token.outside && epilog.all Token.outside) = true) :
    Faithful (prolog ++ root.tokens ++ epilog)
    (readTree decoder.arrays maxHOCRDepth decoder.root) := by
  obtain ⟨tree, isRoot, denotes⟩ := done.denotes
  have deep : tree.depth ≤ maxHOCRDepth := by
    have same := Node.depth_trees root
    rw [isRoot] at same
    simp only [Tree.depthAll, Nat.max_zero] at same
    exact same ▸ done.shallow
  rw [denotes.readTree tree deep]
  exact ⟨prolog, epilog, root, rfl, outside, isRoot, done.shallow, done.words, done.lines⟩

theorem not_faithful_of_outside (outside : tokens.all Token.outside = true) (tree : Tree) :
    ¬Faithful tokens tree := by
  rintro ⟨prolog, epilog, root, rfl, _, isRoot, _⟩
  obtain ⟨token, member, _, inside⟩ := Node.start_of_trees isRoot
  have here := all_eq_true.mp outside token (by simp [member])
  rw [inside] at here
  cases here

theorem decode_done {hocrXML : String} (failure : Option String)
    (small : ¬maxHOCRBytes < hocrXML.utf8ByteSize) {decoder : Decoder} {outline : Outline}
    (ran : tokens.foldlM (Decoder.step growth) Decoder.start = .ok decoder)
    (limits : Outline.ofTokens tokens = .ok outline) (represents : Represents tokens decoder) :
    panics (decodeBoundedHOCR growth hocrXML tokens failure) = false ∧
    ((∀ tree, decodeBoundedHOCR growth hocrXML tokens failure = .ok tree → Faithful tokens tree) ↔
      (failure.isSome = true ∨ ∃ token ∈ tokens, token.isBlank = false)) := by
  cases failure with
  | some cause =>
    have fails : decodeBoundedHOCR growth hocrXML tokens (some cause) =
        .error (.error ("failed to parse XML: " ++ cause)) := by
      rw [decodeBoundedHOCR, refuse_bind_of_not small, ran]
      rfl
    rw [fails]
    exact ⟨rfl, fun _ => .inl rfl, fun _ tree isTree => by cases isTree⟩
  | none =>
    have ends : decodeBoundedHOCR growth hocrXML tokens none = (do
        refuse (decoder.frames.items ≠ []) (.error "failed to parse XML: unexpected end of input")
        pure (readTree decoder.arrays maxHOCRDepth decoder.root)) := by
      rw [decodeBoundedHOCR, refuse_bind_of_not small, ran]
      rfl
    rw [ends]
    cases represents with
    -- The input ended before the root element did: an element is open, or none was ever opened.
    | reading prolog outside frozen entries opened reads =>
      cases entries with
      | nil =>
        have empty : decoder.frames.items = [] := by simpa using opened.framed.length
        have isOutside : tokens.all Token.outside = true := by simpa [reads, openTokens] using outside
        have blank := all_eq_true.mp (blank_of_outside limits isOutside)
        rw [refuse_bind_of_not (not_not.mpr empty)]
        refine ⟨rfl, fun faithful => absurd (faithful _ rfl) (not_faithful_of_outside isOutside _), ?_⟩
        rintro (fails | ⟨token, member, notBlank⟩)
        · cases fails
        · rw [blank token member] at notBlank
          cases notBlank
      | cons entry rest =>
        have filled : decoder.frames.items ≠ [] := by
          intro empty
          simpa [empty] using opened.framed.length
        obtain ⟨token, member, notBlank⟩ := start_of_open entry rest
        rw [refuse_bind_of filled]
        exact ⟨rfl, fun _ => .inr ⟨token, by simp [reads, member], notBlank⟩, fun _ tree isTree =>
          by cases isTree⟩
    | complete prolog epilog outside frozen root done reads =>
      obtain ⟨tree, isRoot, _⟩ := done.denotes
      obtain ⟨token, member, notBlank, _⟩ := Node.start_of_trees isRoot
      rw [refuse_bind_of_not (not_not.mpr done.frames)]
      refine ⟨rfl, fun _ => .inr ⟨token, by simp [reads, member], notBlank⟩, fun _ found isTree => ?_⟩
      rw [pure_ok_iff] at isTree
      rw [← isTree, reads]
      exact done.faithful outside

theorem panics_of_staleAt {hocrXML : String} (failure : Option String)
    (small : ¬maxHOCRBytes < hocrXML.utf8ByteSize) {position : Nat}
    (stale : StaleAt growth.frames tokens position) :
    panics (decodeBoundedHOCR growth hocrXML tokens failure) = true := by
  cases ends growth tokens with
  | done _ _ _ _ _ _ fresh => exact absurd stale (fresh position)
  | refused _ _ _ fresh => exact absurd stale (fresh position)
  | panicked message ran =>
    rw [decodeBoundedHOCR, refuse_bind_of_not small, ran]
    rfl

end Decoding

/-- Decoding neither panics nor returns a tree that is not the document, exactly where no character
data comes to an outgrown word within the limits and where there is anything to decode. -/
theorem decodeBoundedHOCR_faithful_iff (growth : Growth) (hocrXML : String) (tokens : List Token)
    (failure : Option String) :
    (panics (decodeBoundedHOCR growth hocrXML tokens failure) = false ∧
      ∀ tree, decodeBoundedHOCR growth hocrXML tokens failure = .ok tree → Faithful tokens tree) ↔
    maxHOCRBytes < hocrXML.utf8ByteSize ∨
      ((∀ position text, tokens[position]? = some (.charData text) →
          (Outline.ofTokens (tokens.take (position + 1))).isOk = true →
          ¬Outgrown growth.frames tokens position) ∧
        (failure.isSome = true ∨ ∃ token ∈ tokens, token.isBlank = false)) := by
  by_cases large : maxHOCRBytes < hocrXML.utf8ByteSize
  · have fails : ∃ message, decodeBoundedHOCR growth hocrXML tokens failure = .error
        (.error message) := by
      rw [decodeBoundedHOCR, refuse_bind_of large]
      exact ⟨_, rfl⟩
    obtain ⟨message, fails⟩ := fails
    rw [fails]
    exact ⟨fun _ => .inl large, fun _ => ⟨rfl, fun tree isTree => by cases isTree⟩⟩
  · have freshIff : (∀ position text, tokens[position]? = some (.charData text) →
        (Outline.ofTokens (tokens.take (position + 1))).isOk = true →
        ¬Outgrown growth.frames tokens position) ↔
        ∀ position, ¬StaleAt growth.frames tokens position := by
      simp only [staleAt_iff]
      exact ⟨fun fresh position ⟨⟨text, here⟩, isOk, outgrown⟩ =>
        fresh position text here isOk outgrown, fun fresh position text here isOk outgrown =>
          fresh position ⟨⟨text, here⟩, isOk, outgrown⟩⟩
    rw [freshIff, or_iff_right large]
    cases ends growth tokens with
    | done decoder outline ran limits represents follows fresh =>
      obtain ⟨noPanic, faithful⟩ := decode_done failure large ran limits represents
      rw [noPanic, faithful]
      exact ⟨fun ⟨_, found⟩ => ⟨fresh, found⟩, fun ⟨_, found⟩ => ⟨rfl, found⟩⟩
    | refused message ran limits fresh =>
      have fails : decodeBoundedHOCR growth hocrXML tokens failure = .error (.error message) := by
        rw [decodeBoundedHOCR, refuse_bind_of_not large, ran]
        rfl
      have found : ∃ token ∈ tokens, token.isBlank = false := by
        by_contra none
        have blank : tokens.all Token.isBlank = true := by
          rw [all_eq_true]
          intro token member
          cases isBlank : token.isBlank with
          | true => rfl
          | false => exact absurd ⟨token, member, isBlank⟩ none
        rw [ofTokens_of_blank blank] at limits
        cases limits
      rw [fails]
      exact ⟨fun _ => ⟨fresh, .inr found⟩, fun _ => ⟨rfl, fun tree isTree => by cases isTree⟩⟩
    | panicked _ _ position stale =>
      rw [panics_of_staleAt failure large stale]
      exact ⟨fun safe => Bool.noConfusion safe.1, fun fresh => absurd stale (fresh.1 position)⟩

def plainName (word : String) : Name := ⟨"", word⟩

/-- A word under fifteen elements, with text around the start of a nested element. -/
def deepWord : List Token :=
  List.replicate 15 (.startElement (plainName "div") []) ++
    [.startElement (plainName "span") [⟨plainName "class", "ocrx_word"⟩], .charData "a",
      .startElement (plainName "em") [], .charData "b", .endElement, .endElement] ++
    List.replicate 15 .endElement

def deepWordXML : String :=
  String.join (List.replicate 15 "<div>") ++ "<span class='ocrx_word'>a<em>b</em></span>" ++
    String.join (List.replicate 15 "</div>")

theorem deepWord_outgrown (grow : Nat → Nat) : Outgrown grow deepWord 18 := by
  refine ⟨15, 16, 0, _, _, "a", by decide, by decide, rfl, by decide +kernel, rfl,
    fun later after within => ?_, show _ ≤ 16 by decide +kernel,
    show 16 < _ by decide +kernel⟩
  have cases : later = 16 ∨ later = 17 ∨ later = 18 := by omega
  rcases cases with rfl | rfl | rfl <;> decide +kernel

/-- The input is small, and the first move comes with the seventeenth open element, whatever the
capacity after it. -/
theorem decodeBoundedHOCR_deepWord_panics :
    deepWordXML.utf8ByteSize ≤ maxHOCRBytes ∧
      ∀ growth, panics (decodeBoundedHOCR growth deepWordXML deepWord none) = true := by
  have small : deepWordXML.utf8ByteSize ≤ maxHOCRBytes := by decide +kernel
  refine ⟨small, fun growth => panics_of_staleAt none (Nat.not_lt.mpr small)
    (staleAt_iff.mpr ⟨⟨"b", rfl⟩, ?_, deepWord_outgrown growth.frames⟩)⟩
  decide +kernel

end Scribe.Hocr
