import Mathlib.Data.List.Infix
import Scribe.Data.Attempt
import Scribe.Iiif.MediaFragment

/-! Editing the rectangle of a media fragment.

The editor splits a fragment into its parameters, writes the one rectangle among them
or adds it, and joins them without a leading mark. Reading the result drops one leading
mark again, so the parameters come back exactly when the first of them does not begin
with a second mark.
-/

set_option autoImplicit false

namespace Scribe.Iiif

open List Attempt

/-- The text that is split into parameters. -/
def fragmentText (raw : String) : String := Go.trimSpace (Go.trimPrefix (Go.trimSpace raw) "#")

def isXYWH (parameter : String) : Bool := (xywhParameter? parameter).isSome

/-- The parameters that are not a rectangle. -/
def otherParameters (raw : String) : List String :=
  (mediaFragmentParameters raw).filter fun parameter => !isXYWH parameter

def Denotes (raw xywh : String) : Prop :=
  ∃ value box, mediaFragmentPixelXYWH raw = .ok (some value) ∧ parsePixelXYWH value = .ok box ∧
    parsePixelXYWH xywh = .ok box

/-! ## Valid rectangles -/

def ValidXYWH (xywh : String) : Prop := ∃ box, parsePixelXYWH xywh = .ok box

def coordinateText (xywh : String) : String :=
  if Go.hasPrefix (Go.trimSpace xywh) "pixel:" then
    Go.trimSpace (Go.trimPrefix (Go.trimSpace xywh) "pixel:")
  else Go.trimSpace xywh

theorem parsePixelXYWH_congr {one other : String} (same : coordinateText one = coordinateText other) :
    parsePixelXYWH one = parsePixelXYWH other := by
  simp only [coordinateText] at same
  simp only [parsePixelXYWH, same]

/-- A part of a rectangle is a number up to white space. -/
def ReadsAs (part : String) (value : Nat) : Prop :=
  Number.readNat (2 ^ 64) (Go.trimSpace part).toList = some value

theorem parsePixelXYWH_ok {xywh : String} {box : List Nat} (parsed : parsePixelXYWH xywh = .ok box) :
    List.Forall₂ ReadsAs (Go.split (coordinateText xywh) ',') box ∧
      ∃ x y w h, box = [x, y, w, h] ∧ w ≠ 0 ∧ h ≠ 0 ∧ x + w ≤ maxPixelCoordinate ∧
        y + h ≤ maxPixelCoordinate := by
  have refold : (if Go.hasPrefix (Go.trimSpace xywh) "pixel:" = true then
      Go.trimSpace (Go.trimPrefix (Go.trimSpace xywh) "pixel:")
        else Go.trimSpace xywh) = coordinateText xywh := rfl
  simp only [parsePixelXYWH, refold] at parsed
  split at parsed
  · exact absurd (bind_ok_iff.mp parsed).choose_spec.1 throw_ne_ok
  split at parsed
  · exact absurd (bind_ok_iff.mp parsed).choose_spec.1 throw_ne_ok
  obtain ⟨values, read, parsed⟩ := bind_ok_iff.mp parsed
  have reads : List.Forall₂ ReadsAs (Go.split (coordinateText xywh) ',') values := by
    have each := mapM_ok_iff.mp read
    rw [← zipIdx_map_fst 0 (Go.split (coordinateText xywh) ','), List.forall₂_map_left_iff]
    refine each.imp fun part value isValue => ?_
    split at isValue
    · rename_i number isNumber
      rw [ReadsAs, isNumber, pure_ok_iff.mp isValue]
    · exact absurd isValue throw_ne_ok
  split at parsed
  · rename_i x y w h
    split at parsed
    · exact absurd (bind_ok_iff.mp parsed).choose_spec.1 throw_ne_ok
    obtain ⟨-, -, parsed⟩ := bind_ok_iff.mp parsed
    split at parsed
    · exact absurd (bind_ok_iff.mp parsed).choose_spec.1 throw_ne_ok
    have whole := pure_ok_iff.mp parsed
    refine ⟨whole ▸ reads, x, y, w, h, whole.symm, ?_⟩
    omega
  · exact absurd parsed throw_ne_ok

theorem ReadsAs.digits {part : String} {value : Nat} (reads : ReadsAs part value) :
    ∀ c ∈ part.toList, c.isDigit = true ∨ Text.unicodeSpace c = true := by
  intro c among
  rw [ReadsAs, Number.readNat] at reads
  split at reads
  · rename_i digits
    cases space : Text.unicodeSpace c with
    | true => exact .inr rfl
    | false =>
      refine .inl (all_eq_true.mp digits.2 c ?_)
      rw [Go.trimSpace, Text.trim, String.toList_ofList]
      exact Text.mem_trimChars among space
  · cases reads

theorem ValidXYWH.plain {xywh : String} (valid : ValidXYWH xywh) :
    ∀ c ∈ (coordinateText xywh).toList, c.isDigit = true ∨ Text.unicodeSpace c = true ∨ c = ',' := by
  obtain ⟨box, parsed⟩ := valid
  obtain ⟨reads, -⟩ := parsePixelXYWH_ok parsed
  intro c among
  by_cases comma : c = ','
  · exact .inr (.inr comma)
  obtain ⟨part, member, inside⟩ := Go.exists_mem_split among comma
  obtain ⟨value, -, isValue⟩ := exists_related reads member
  rcases isValue.digits c inside with digit | space
  · exact .inl digit
  · exact .inr (.inl space)

/-! ## Writing -/

theorem head_of_trimSpace_key {key : String} (named : Go.trimSpace key = "xywh")
    (plain : ∀ c, key.toList.head? = some c → Text.unicodeSpace c = false) :
    key.toList.head? = some 'x' := by
  have trimmed : Text.trimChars Text.unicodeSpace key.toList = ['x', 'y', 'w', 'h'] := by
    have chars := congrArg String.toList named
    rw [Go.trimSpace, Text.trim, String.toList_ofList] at chars
    rw [chars]
    decide
  have unchanged : key.toList.dropWhile Text.unicodeSpace = key.toList := by
    cases chars : key.toList with
    | nil => rfl
    | cons c rest => exact dropWhile_cons_of_neg (by simp [plain c (by rw [chars]; rfl)])
  rw [Text.trimChars, unchanged] at trimmed
  obtain ⟨rest, whole⟩ := @List.rdropWhile_prefix Char Text.unicodeSpace key.toList
  rw [trimmed] at whole
  rw [← whole]
  rfl

theorem xywhParameter?_written {key value : String} (named : Go.trimSpace key = "xywh")
    (plain : '=' ∉ key.toList) : xywhParameter? (key ++ "=" ++ value) = some value := by
  have cut : Go.cut (key ++ "=" ++ value) '=' = (key, value, true) := Go.cut_append plain
  simp [xywhParameter?, cut, named]

variable {parameter : String}

theorem mem_mediaFragmentParameters_free {raw : String}
    (member : parameter ∈ mediaFragmentParameters raw) : '&' ∉ parameter.toList := by
  unfold mediaFragmentParameters at member
  simp only at member
  split at member
  · cases member
  · exact Go.not_mem_of_mem_split member

/-- The value that replaces another one: it keeps the unit of pixels. -/
def writtenValue (existing xywh : String) : String :=
  if Go.hasPrefix (Go.trimSpace existing) "pixel:" ∧ !Go.hasPrefix (Go.trimSpace xywh) "pixel:" then
    "pixel:" ++ Go.trimSpace xywh
  else Go.trimSpace xywh

theorem trimSpace_filled {xywh : String} (valid : ValidXYWH xywh) : Go.trimSpace xywh ≠ "" := by
  intro empty
  obtain ⟨box, parsed⟩ := valid
  obtain ⟨reads, x, y, w, h, rfl, -⟩ := parsePixelXYWH_ok parsed
  have blank : coordinateText xywh = "" := by
    rw [coordinateText, empty]
    decide
  rw [blank] at reads
  have lengths := reads.length_eq
  cases lengths

theorem not_separator {xywh : String} (valid : ValidXYWH xywh) : '&' ∉ (Go.trimSpace xywh).toList := by
  intro among
  have inside : '&' ∈ (coordinateText xywh).toList := by
    rw [coordinateText]
    split
    · rename_i unit
      rw [Go.trimSpace, Text.trim, String.toList_ofList]
      refine Text.mem_trimChars ?_ (by decide)
      obtain ⟨rest, whole⟩ := isPrefixOf_iff_prefix.mp unit
      rw [← whole, mem_append] at among
      rw [Go.trimPrefix, if_pos unit, String.toList_ofList, ← whole, drop_left]
      exact among.resolve_left (by decide)
    · exact among
  rcases valid.plain _ inside with digit | space | comma
  · exact absurd digit (by decide)
  · exact absurd space (by decide)
  · exact absurd comma (by decide)

theorem trimSpace_of_ends {text : String}
    (first : ∀ c, text.toList.head? = some c → Text.unicodeSpace c = false)
    (last : ∀ c, text.toList.getLast? = some c → Text.unicodeSpace c = false) :
    Go.trimSpace text = text := by
  rw [Go.trimSpace, Text.trim, Text.trimChars_of_ends first last, String.ofList_toList]

theorem head_trimSpace (text : String) (c : Char) (found : (Go.trimSpace text).toList.head? = some c) :
    Text.unicodeSpace c = false := by
  rw [Go.trimSpace, Text.trim, String.toList_ofList] at found
  exact Text.head?_trimChars _ c found

theorem last_trimSpace (text : String) (c : Char)
    (found : (Go.trimSpace text).toList.getLast? = some c) : Text.unicodeSpace c = false := by
  rw [Go.trimSpace, Text.trim, String.toList_ofList] at found
  exact Text.getLast?_trimChars _ c found

structure Written (xywh value : String) : Prop where
  shape : value = Go.trimSpace xywh ∨ value = "pixel:" ++ Go.trimSpace xywh
  filled : value ≠ ""
  free : '&' ∉ value.toList
  trimmed : Go.trimSpace value = value
  same : coordinateText value = coordinateText xywh

theorem written_trimSpace {xywh : String} (valid : ValidXYWH xywh) :
    Written xywh (Go.trimSpace xywh) where
  shape := .inl rfl
  filled := trimSpace_filled valid
  free := not_separator valid
  trimmed := Go.trimSpace_trimSpace xywh
  same := by rw [coordinateText, Go.trimSpace_trimSpace, ← coordinateText]

theorem written_writtenValue (existing : String) {xywh : String} (valid : ValidXYWH xywh) :
    Written xywh (writtenValue existing xywh) := by
  rw [writtenValue]
  split
  · rename_i unit
    have plain := written_trimSpace valid
    have chars : ("pixel:" ++ Go.trimSpace xywh).toList =
        "pixel:".toList ++ (Go.trimSpace xywh).toList :=
      String.toList_append
    have trimmed : Go.trimSpace ("pixel:" ++ Go.trimSpace xywh) = "pixel:" ++ Go.trimSpace xywh := by
      refine trimSpace_of_ends (fun c found => ?_) fun c found => ?_
      · rw [chars, head?_append_of_ne_nil _ (by decide)] at found
        rw [← Option.some.inj found]
        decide
      · rw [chars, getLast?_append_of_ne_nil _ (by simpa using plain.filled)] at found
        exact last_trimSpace xywh c found
    refine ⟨.inr rfl, by simp, ?_, trimmed, ?_⟩
    · rw [chars, mem_append]
      rintro (mark | inside)
      · exact absurd mark (by decide)
      · exact plain.free inside
    · have marked : Go.hasPrefix ("pixel:" ++ Go.trimSpace xywh) "pixel:" = true := by
        rw [Go.hasPrefix, chars, isPrefixOf_iff_prefix]
        exact prefix_append _ _
      have bare : ¬ Go.hasPrefix (Go.trimSpace xywh) "pixel:" = true := by simpa using unit.2
      have rest : Go.trimPrefix ("pixel:" ++ Go.trimSpace xywh) "pixel:" = Go.trimSpace xywh := by
        rw [Go.trimPrefix, if_pos marked, chars, drop_left, String.ofList_toList]
      rw [coordinateText, trimmed, if_pos marked, rest, Go.trimSpace_trimSpace,
        coordinateText, if_neg bare]
  · exact written_trimSpace valid

def writeParameter (xywh parameter : String) : String :=
  match Go.cut parameter '=' with
  | (key, existing, true) =>
      if Go.trimSpace key = "xywh" then key ++ "=" ++ writtenValue existing xywh else parameter
  | _ => parameter

theorem writeParameter_other (other : isXYWH parameter = false) (xywh : String) :
    writeParameter xywh parameter = parameter := by
  rw [isXYWH, xywhParameter?] at other
  rw [writeParameter]
  split
  · rename_i key existing parts
    rw [parts] at other
    simp only at other
    split at other
    · cases other
    · rename_i apart
      rw [if_neg apart]
  · rfl

theorem writeParameter_xywh (isRectangle : isXYWH parameter = true) (xywh : String) :
    ∃ key existing, parameter = key ++ "=" ++ existing ∧ Go.trimSpace key = "xywh" ∧ '=' ∉ key.toList ∧
      writeParameter xywh parameter = key ++ "=" ++ writtenValue existing xywh := by
  rw [isXYWH, xywhParameter?] at isRectangle
  split at isRectangle
  · rename_i key existing parts
    split at isRectangle
    · rename_i named
      obtain ⟨whole, plain⟩ := Go.cut_eq_true parts
      exact ⟨key, existing, whole, named, plain,
        by rw [writeParameter, parts]; simp only [named, if_true]⟩
    · cases isRectangle
  · cases isRectangle

def writtenParameters (xywh : String) (parameters : List String) : List String :=
  if parameters.any isXYWH then parameters.map (writeParameter xywh)
  else parameters ++ ["xywh=" ++ Go.trimSpace xywh]

theorem replaceParameters_eq (xywh : String) (parameters : List String) (replaced : Bool) :
    replaceParameters xywh replaced parameters =
      if replaced.toNat + parameters.countP isXYWH ≤ 1 then
        .ok (replaced || parameters.any isXYWH, if replaced then parameters
          else parameters.map (writeParameter xywh))
      else .error multipleParameters := by
  -- `replaced` says that a rectangle was met before, so one more among the rest is too many.
  induction parameters generalizing replaced with
  | nil => cases replaced <;> rfl
  | cons parameter rest ih =>
    rw [countP_cons, any_cons, map_cons]
    cases isRectangle : isXYWH parameter with
    | false =>
      have kept := writeParameter_other isRectangle xywh
      have step : replaceParameters xywh replaced (parameter :: rest) =
          (replaceParameters xywh replaced rest).map fun done => (done.1, parameter :: done.2) := by
        rw [isXYWH, xywhParameter?] at isRectangle
        rw [replaceParameters]
        split
        · rename_i key existing parts
          rw [parts] at isRectangle
          have apart : Go.trimSpace key ≠ "xywh" := fun named => by simp [named] at isRectangle
          rw [if_pos apart]
          rfl
        · rfl
      rw [step, ih replaced, kept]
      simp only [Bool.false_eq_true, if_false, Nat.add_zero, Bool.false_or]
      split
      · cases replaced <;> rfl
      · rfl
    | true =>
      obtain ⟨key, existing, rfl, named, plain, written⟩ := writeParameter_xywh isRectangle xywh
      have parts : Go.cut (key ++ "=" ++ existing) '=' = (key, existing, true) := Go.cut_append plain
      rw [replaceParameters, parts, written]
      cases replaced with
      | true => simp [named]
      | false =>
        simp only [named, ne_eq, not_true_eq_false, if_false, Bool.false_eq_true, ih true]
        have sums : false.toNat + (rest.countP isXYWH + if True then 1 else 0) =
            true.toNat + rest.countP isXYWH := by
          simp [Nat.add_comm]
        rw [sums]
        split
        · rename_i few
          have others : rest.map (writeParameter xywh) = rest := by
            have none : rest.countP isXYWH = 0 := by
              rw [Bool.toNat_true] at few
              omega
            conv_rhs => rw [← map_id rest]
            exact map_congr_left fun other among =>
              writeParameter_other (by simpa using countP_eq_zero.mp none other among) xywh
          rw [others]
          rfl
        · rfl

theorem replaceMediaFragmentPixelXYWH_eq (raw xywh : String) :
    replaceMediaFragmentPixelXYWH raw xywh = (do
      let _ ← parsePixelXYWH xywh
      if (mediaFragmentParameters raw).countP isXYWH ≤ 1 then
        .ok (String.intercalate "&" (writtenParameters xywh (mediaFragmentParameters raw)))
      else .error multipleParameters) := by
  refine bind_congr fun box => ?_
  generalize mediaFragmentParameters raw = parameters
  simp only [replaceParameters_eq, Bool.toNat_false, Nat.zero_add, Bool.false_or,
    Bool.false_eq_true, if_false, writtenParameters]
  by_cases few : parameters.countP isXYWH ≤ 1
  · simp only [few, if_true]
    cases found : parameters.any isXYWH with
    | true => simp [bind, Except.bind, pure, Except.pure]
    | false =>
      -- Without a rectangle nothing is rewritten.
      have kept : parameters.map (writeParameter xywh) = parameters := by
        conv_rhs => rw [← map_id parameters]
        exact map_congr_left fun other among =>
          writeParameter_other (by simpa using any_eq_false.mp found other among) xywh
      simp [kept, bind, Except.bind, pure, Except.pure]
  · simp [few, bind, Except.bind]

/-- When an edit succeeds, and what it gives. -/
theorem replaceMediaFragmentPixelXYWH_ok_iff {raw xywh updated : String} :
    replaceMediaFragmentPixelXYWH raw xywh = .ok updated ↔
      ValidXYWH xywh ∧ (mediaFragmentParameters raw).countP isXYWH ≤ 1 ∧
        updated = String.intercalate "&" (writtenParameters xywh (mediaFragmentParameters raw)) := by
  rw [replaceMediaFragmentPixelXYWH_eq, bind_ok_iff, ValidXYWH, exists_and_right]
  split
  · rename_i few
    simp [few, eq_comm]
  · rename_i many
    simp [many]

/-! ## Reading what was written -/

theorem head_join (parameter : String) (rest : List String) :
    (String.intercalate "&" (parameter :: rest)).toList.head? =
      parameter.toList.head?.or (if rest = [] then none else some '&') := by
  by_cases none : rest = []
  · simp [none]
  · rw [String.intercalate_cons_of_ne_nil none]
    cases chars : parameter.toList <;> simp [chars, none]

theorem last_join (init : List String) (parameter : String) :
    (String.intercalate "&" (init ++ [parameter])).toList.getLast? =
      parameter.toList.getLast?.or (if init = [] then none else some '&') := by
  by_cases none : init = []
  · simp [none]
  · rw [String.intercalate_append_of_ne_nil none (by simp)]
    simp [none, getLast?_append, getLast?_cons]

theorem mediaFragmentParameters_eq (raw : String) :
    mediaFragmentParameters raw = if fragmentText raw = "" then []
      else Go.split (fragmentText raw) '&' := rfl

theorem join_mediaFragmentParameters (raw : String) :
    String.intercalate "&" (mediaFragmentParameters raw) = fragmentText raw := by
  rw [mediaFragmentParameters_eq]
  split
  · rename_i empty
    rw [empty]
    rfl
  · exact Go.join_split _ '&'

theorem mediaFragmentParameters_join {parameters : List String}
    (filled : String.intercalate "&" parameters ≠ "")
    (free : ∀ parameter ∈ parameters, '&' ∉ parameter.toList)
    (first : ∀ c, (String.intercalate "&" parameters).toList.head? = some c →
      Text.unicodeSpace c = false ∧ c ≠ '#')
    (last : ∀ c, (String.intercalate "&" parameters).toList.getLast? = some c →
      Text.unicodeSpace c = false) :
    mediaFragmentParameters (String.intercalate "&" parameters) = parameters := by
  have trimmed := trimSpace_of_ends (fun c found => (first c found).1) last
  have unmarked : Go.trimPrefix (String.intercalate "&" parameters) "#" =
      String.intercalate "&" parameters := by
    rw [Go.trimPrefix, if_neg]
    intro marked
    obtain ⟨rest, whole⟩ := isPrefixOf_iff_prefix.mp marked
    exact (first '#' (by rw [← whole]; rfl)).2 rfl
  rw [mediaFragmentParameters_eq, fragmentText, trimmed, unmarked, trimmed, if_neg filled]
  exact Go.split_join (fun empty => filled (by rw [empty]; rfl)) free

theorem fragmentText_first (raw : String) (c : Char)
    (found : (fragmentText raw).toList.head? = some c) :
    Text.unicodeSpace c = false := head_trimSpace _ c found

theorem fragmentText_last (raw : String) (c : Char)
    (found : (fragmentText raw).toList.getLast? = some c) :
    Text.unicodeSpace c = false := last_trimSpace _ c found

section
variable {xywh : String} (valid : ValidXYWH xywh)
include valid

theorem writeParameter_shape (isRectangle : isXYWH parameter = true) :
    (writeParameter xywh parameter).toList.head? = parameter.toList.head? ∧
    (∀ c, (writeParameter xywh parameter).toList.getLast? = some c → Text.unicodeSpace c = false) ∧
    ('&' ∉ parameter.toList → '&' ∉ (writeParameter xywh parameter).toList) ∧
    ∃ value, Written xywh value ∧ xywhParameter? (writeParameter xywh parameter) = some value := by
  obtain ⟨key, existing, rfl, named, plain, written⟩ := writeParameter_xywh isRectangle xywh
  have value := written_writtenValue existing valid
  have keyed : key.toList ≠ [] := by
    intro empty
    rw [String.toList_eq_nil_iff.mp empty] at named
    exact absurd named (by decide)
  rw [written]
  refine ⟨?_, fun c found => ?_, fun free => ?_, _, value, xywhParameter?_written named plain⟩
  · simp only [String.toList_append, append_assoc, head?_append_of_ne_nil _ keyed]
  · rw [String.toList_append, getLast?_append_of_ne_nil _ (by simpa using value.filled),
      ← value.trimmed] at found
    exact last_trimSpace _ c found
  · simp only [String.toList_append, mem_append, not_or] at free ⊢
    exact ⟨free.1, value.free⟩

theorem newParameter_shape :
    (∀ c, ("xywh=" ++ Go.trimSpace xywh).toList.getLast? = some c → Text.unicodeSpace c = false) ∧
    '&' ∉ ("xywh=" ++ Go.trimSpace xywh).toList ∧
    xywhParameter? ("xywh=" ++ Go.trimSpace xywh) = some (Go.trimSpace xywh) := by
  have value := written_trimSpace valid
  refine ⟨fun c found => ?_, ?_, @xywhParameter?_written "xywh" _ (by decide) (by decide)⟩
  · rw [String.toList_append, getLast?_append_of_ne_nil _ (by simpa using value.filled)] at found
    exact last_trimSpace _ c found
  · rw [String.toList_append, mem_append]
    rintro (mark | inside)
    · exact absurd mark (by decide)
    · exact value.free inside

theorem writtenParameters_free (raw : String) :
    ∀ parameter ∈ writtenParameters xywh (mediaFragmentParameters raw), '&' ∉ parameter.toList := by
  intro parameter among
  rw [writtenParameters] at among
  split at among
  · obtain ⟨old, member, rfl⟩ := mem_map.mp among
    have free := mem_mediaFragmentParameters_free member
    cases isRectangle : isXYWH old with
    | true => exact (writeParameter_shape valid isRectangle).2.2.1 free
    | false => rwa [writeParameter_other isRectangle]
  · rcases mem_append.mp among with member | new
    · exact mem_mediaFragmentParameters_free member
    · rw [mem_singleton.mp new]
      exact (newParameter_shape valid).2.1

theorem writtenParameters_first (raw : String) (c : Char)
    (found : (String.intercalate "&"
      (writtenParameters xywh (mediaFragmentParameters raw))).toList.head? = some c) :
    c = 'x' ∨ c = '&' ∨ (fragmentText raw).toList.head? = some c := by
  rw [← join_mediaFragmentParameters]
  cases parameters : mediaFragmentParameters raw with
  | nil =>
    rw [parameters, writtenParameters] at found
    left
    simpa using found.symm
  | cons parameter rest =>
    have heads : ∃ others, writtenParameters xywh (parameter :: rest) = writeParameter xywh
        parameter :: others := by
      rw [writtenParameters]
      split
      · exact ⟨_, rfl⟩
      · rename_i unfound
        have other : isXYWH parameter = false := by
          rw [any_cons, Bool.or_eq_true, not_or] at unfound
          exact Bool.eq_false_iff.mpr unfound.1
        rw [writeParameter_other other]
        exact ⟨_, rfl⟩
    have first : (writeParameter xywh parameter).toList.head? = parameter.toList.head? := by
      cases isRectangle : isXYWH parameter with
      | true => exact (writeParameter_shape valid isRectangle).1
      | false => rw [writeParameter_other isRectangle]
    obtain ⟨others, shape⟩ := heads
    rw [parameters, shape, head_join, first] at found
    rw [head_join]
    cases chars : parameter.toList.head? with
    | some d =>
      rw [chars, Option.some_or] at found
      exact .inr (.inr (by rw [Option.some_or]; exact found))
    | none =>
      rw [chars, Option.none_or] at found
      split at found
      · cases found
      · exact .inr (.inl (Option.some.inj found).symm)

theorem writtenParameters_last (raw : String) (c : Char)
    (found : (String.intercalate "&"
      (writtenParameters xywh (mediaFragmentParameters raw))).toList.getLast? = some c) :
    Text.unicodeSpace c = false := by
  have mark : Text.unicodeSpace '&' = false := by decide
  have either : ∀ (init : List String) (parameter : String),
      (String.intercalate "&" (init ++ [parameter])).toList.getLast? = some c →
      (∀ d, parameter.toList.getLast? = some d → Text.unicodeSpace d = false) →
      Text.unicodeSpace c = false := by
    intro init parameter ends visible
    rw [last_join] at ends
    cases chars : parameter.toList.getLast? with
    | some d =>
      rw [chars, Option.some_or] at ends
      exact visible c (by rw [chars]; exact ends)
    | none =>
      rw [chars, Option.none_or] at ends
      split at ends
      · cases ends
      · rw [← Option.some.inj ends]
        exact mark
  rw [writtenParameters] at found
  split at found
  · rename_i any
    obtain ⟨init, parameter, shape⟩ : ∃ init parameter,
        mediaFragmentParameters raw = init ++ [parameter] := by
      rcases eq_nil_or_concat (mediaFragmentParameters raw) with none | ⟨init, parameter, shape⟩
      · simp [none] at any
      · exact ⟨init, parameter, by rw [shape, concat_eq_append]⟩
    rw [shape, map_append] at found
    refine either _ _ found fun d visible => ?_
    cases isRectangle : isXYWH parameter with
    | true => exact (writeParameter_shape valid isRectangle).2.1 d visible
    | false =>
      rw [writeParameter_other isRectangle] at visible
      refine fragmentText_last raw d ?_
      rw [← join_mediaFragmentParameters, shape, last_join, visible]
      rfl
  · exact either _ _ found (newParameter_shape valid).1

theorem isXYWH_writeParameter (parameter : String) :
    isXYWH (writeParameter xywh parameter) = isXYWH parameter := by
  cases isRectangle : isXYWH parameter with
  | true =>
    obtain ⟨-, -, -, value, -, read⟩ := writeParameter_shape valid isRectangle
    rw [isXYWH, read, Option.isSome_some]
  | false => rw [writeParameter_other isRectangle, isRectangle]

theorem isXYWH_new : isXYWH ("xywh=" ++ Go.trimSpace xywh) = true := by
  rw [isXYWH, (newParameter_shape valid).2.2, Option.isSome_some]

theorem writtenParameters_value {parameters : List String} (few : parameters.countP isXYWH ≤ 1) :
    ∃ value, Written xywh value ∧ (writtenParameters xywh parameters).filterMap
      xywhParameter? = [value] := by
  rw [writtenParameters]
  split
  · rename_i any
    have one : ((parameters.map (writeParameter xywh)).filterMap xywhParameter?).length = 1 := by
      have counted : ∀ list : List String,
          (list.filterMap xywhParameter?).length = list.countP isXYWH :=
        fun list => length_filterMap_eq_countP
      have same : isXYWH ∘ writeParameter xywh = isXYWH := funext (isXYWH_writeParameter valid)
      rw [counted, countP_map, same]
      have some := countP_pos_iff.mpr (any_eq_true.mp any)
      omega
    obtain ⟨value, single⟩ := length_eq_one_iff.mp one
    refine ⟨value, ?_, single⟩
    have among : value ∈ (parameters.map (writeParameter xywh)).filterMap xywhParameter? := by
      rw [single]
      exact mem_singleton_self _
    obtain ⟨written, member, read⟩ := mem_filterMap.mp among
    obtain ⟨old, -, rfl⟩ := mem_map.mp member
    have isRectangle : isXYWH old = true := by
      rw [← isXYWH_writeParameter valid old, isXYWH, read, Option.isSome_some]
    obtain ⟨-, -, -, other, isWritten, reads⟩ := writeParameter_shape valid isRectangle
    rw [read, Option.some.injEq] at reads
    rwa [reads]
  · rename_i unfound
    have none : parameters.filterMap xywhParameter? = [] := by
      refine filterMap_eq_nil_iff.mpr fun parameter among => ?_
      have other := any_eq_false.mp (Bool.eq_false_iff.mpr unfound) parameter among
      simpa [isXYWH] using other
    refine ⟨Go.trimSpace xywh, written_trimSpace valid, ?_⟩
    rw [filterMap_append, none, nil_append, filterMap_cons, (newParameter_shape valid).2.2]
    rfl

theorem writtenParameters_others (parameters : List String) :
    (writtenParameters xywh parameters).filter (fun parameter => !isXYWH parameter) =
      parameters.filter fun parameter => !isXYWH parameter := by
  rw [writtenParameters]
  split
  · have same : (fun parameter => !isXYWH parameter) ∘ writeParameter xywh = fun parameter =>
        !isXYWH parameter := by
      funext parameter
      rw [Function.comp_apply, isXYWH_writeParameter valid]
    rw [filter_map, same]
    conv_rhs => rw [← map_id (parameters.filter fun parameter => !isXYWH parameter)]
    refine map_congr_left fun parameter among => ?_
    exact writeParameter_other (by simpa using (mem_filter.mp among).2) xywh
  · simp [filter_append, isXYWH_new valid]

theorem writtenParameters_position {parameters : List String} {position : Nat}
    (found : parameters.findIdx? isXYWH = some position) :
    (writtenParameters xywh parameters).findIdx? isXYWH = some position := by
  have any : parameters.any isXYWH = true := by
    rw [← findIdx?_isSome, found, Option.isSome_some]
  have same : isXYWH ∘ writeParameter xywh = isXYWH := funext (isXYWH_writeParameter valid)
  rw [writtenParameters, if_pos any, findIdx?_map, same, found]

end

/-! ## The laws -/

/-- What an edit of a fragment should do, whatever rectangle is written next. -/
structure LawfulEdit (raw xywh next updated : String) : Prop where
  reads : Denotes updated xywh
  again : ∃ later, replaceMediaFragmentPixelXYWH updated next = .ok later ∧ Denotes later next
  others : otherParameters updated = otherParameters raw
  removed : removeMediaFragmentPixelXYWH updated = removeMediaFragmentPixelXYWH raw
  position : ∀ position, (mediaFragmentParameters raw).findIdx? isXYWH = some position →
    (mediaFragmentParameters updated).findIdx? isXYWH = some position

/-- Something is left of a second mark. -/
def Marked (raw : String) : Prop := Go.hasPrefix (fragmentText raw) "#" = true

theorem join_ne_empty {parameters : List String} (among : parameter ∈ parameters)
    (filled : parameter ≠ "") : String.intercalate "&" parameters ≠ "" := by
  intro empty
  obtain ⟨front, back, rfl⟩ := append_of_mem among
  have here : parameter.toList ≠ [] := by simpa using filled
  have chars := congrArg String.toList empty
  rw [String.toList_intercalate, map_append, map_cons] at chars
  cases front with
  | nil => cases back <;> simp [intercalate_cons_cons, here] at chars
  | cons first rest => cases rest <;> simp [intercalate_cons_cons] at chars

/-- Reading joined parameters drops a leading mark and the white space after it. -/
theorem mediaFragmentParameters_unmarking {others : List String} {after : List Char}
    (mark : parameter.toList = '#' :: after) (filled : others ≠ [])
    (free : ∀ other ∈ others, '&' ∉ other.toList) (alone : '&' ∉ parameter.toList)
    (last : ∀ c, (String.intercalate "&" (parameter :: others)).toList.getLast? = some c →
      Text.unicodeSpace c = false) :
    mediaFragmentParameters (String.intercalate "&" (parameter :: others)) =
      String.ofList (after.dropWhile Text.unicodeSpace) :: others := by
  have joined : ∀ first : String, (String.intercalate "&" (first :: others)).toList =
      first.toList ++ '&' :: (String.intercalate "&" others).toList := by
    intro first
    rw [String.intercalate_cons_of_ne_nil filled]
    simp
  have trimmed : Go.trimSpace (String.intercalate "&" (parameter :: others)) =
      String.intercalate "&" (parameter :: others) := by
    refine trimSpace_of_ends (fun c found => ?_) last
    rw [joined, mark, cons_append, head?_cons, Option.some.injEq] at found
    subst found
    decide
  have unmarked : (Go.trimPrefix (String.intercalate "&" (parameter :: others)) "#").toList =
      after ++ '&' :: (String.intercalate "&" others).toList := by
    have marked : Go.hasPrefix (String.intercalate "&" (parameter :: others)) "#" = true := by
      rw [Go.hasPrefix, joined, mark, isPrefixOf_iff_prefix]
      exact ⟨_, rfl⟩
    rw [Go.trimPrefix, if_pos marked, String.toList_ofList, joined, mark]
    rfl
  -- Only the front changes: the text ends with a visible character.
  have text : fragmentText (String.intercalate "&" (parameter :: others)) =
      String.intercalate "&" (String.ofList (after.dropWhile Text.unicodeSpace) :: others) := by
    apply String.toList_inj.mp
    rw [fragmentText, trimmed, joined, String.toList_ofList, Go.trimSpace, Text.trim,
      String.toList_ofList, unmarked, Text.trimChars, Text.dropWhile_append_core _ _ (by simp) (by
        intro c found
        rw [← Option.some.inj found]
        decide)]
    refine rdropWhile_eq_self_iff.mpr fun nonempty space => ?_
    have visible := last _ (by
      rw [joined, mark, getLast?_append_of_ne_nil _ (by simp),
        getLast?_eq_getLast_of_ne_nil (by simp)])
    rw [getLast_append_of_ne_nil _ (by simp), visible] at space
    cases space
  have nonempty : fragmentText (String.intercalate "&" (parameter :: others)) ≠ "" := by
    intro empty
    rw [text] at empty
    have chars := congrArg String.toList empty
    rw [joined] at chars
    simp at chars
  rw [mediaFragmentParameters_eq, if_neg nonempty, text]
  refine Go.split_join (by simp) fun part among => ?_
  rcases mem_cons.mp among with rfl | later
  · rw [String.toList_ofList]
    exact fun inside =>
      alone (by rw [mark]; exact mem_cons_of_mem _ ((dropWhile_sublist _).mem inside))
  · exact free part later

section
variable {raw xywh updated : String} (done : replaceMediaFragmentPixelXYWH raw xywh = .ok updated)
include done

theorem written_ne_empty :
    String.intercalate "&" (writtenParameters xywh (mediaFragmentParameters raw)) ≠ "" := by
  obtain ⟨valid, few, -⟩ := replaceMediaFragmentPixelXYWH_ok_iff.mp done
  obtain ⟨value, -, single⟩ := writtenParameters_value valid few
  have among : value ∈ (writtenParameters xywh (mediaFragmentParameters raw)).filterMap
      xywhParameter? := by
    rw [single]
    exact mem_singleton_self _
  obtain ⟨parameter, member, read⟩ := mem_filterMap.mp among
  refine join_ne_empty member fun empty => ?_
  rw [empty] at read
  exact absurd read (by simp [xywhParameter?, Go.cut])

theorem mediaFragmentParameters_written (unmarked : ¬ Marked raw) :
    mediaFragmentParameters updated = writtenParameters xywh (mediaFragmentParameters raw) := by
  obtain ⟨valid, few, same⟩ := replaceMediaFragmentPixelXYWH_ok_iff.mp done
  rw [same]
  refine mediaFragmentParameters_join (written_ne_empty done) (writtenParameters_free valid raw)
    (fun c found => ?_)
    (writtenParameters_last valid raw)
  rcases writtenParameters_first valid raw c found with rfl | rfl | kept
  · decide
  · decide
  · refine ⟨fragmentText_first raw c kept, fun isMark => unmarked ?_⟩
    rw [Marked, Go.hasPrefix, isPrefixOf_iff_prefix]
    subst isMark
    cases chars : (fragmentText raw).toList with
    | nil => simp [chars] at kept
    | cons d rest =>
      rw [chars, head?_cons, Option.some.injEq] at kept
      rw [kept]
      exact ⟨rest, rfl⟩

/-- A first parameter that begins with a mark is not a rectangle, and an edit leaves it in front of
others. -/
theorem written_marked {rest : List String} {after : List Char}
    (parameters : mediaFragmentParameters raw = parameter :: rest)
    (mark : parameter.toList = '#' :: after) : isXYWH parameter = false ∧ ∃ others, others ≠ [] ∧
      writtenParameters xywh (mediaFragmentParameters raw) = parameter :: others := by
  obtain ⟨valid, few, -⟩ := replaceMediaFragmentPixelXYWH_ok_iff.mp done
  have other : isXYWH parameter = false := by
    rw [Bool.eq_false_iff]
    intro isRectangle
    obtain ⟨key, existing, whole, named, -⟩ := writeParameter_xywh isRectangle xywh
    have keyed : key.toList ≠ [] := by
      intro empty
      rw [String.toList_eq_nil_iff.mp empty] at named
      exact absurd named (by decide)
    have first : key.toList.head? = some '#' := by
      rw [whole, String.toList_append, String.toList_append, append_assoc] at mark
      rw [← head?_append_of_ne_nil _ keyed, mark, head?_cons]
    have letter := head_of_trimSpace_key named fun c found => by
      rw [first, Option.some.injEq] at found
      subst found
      decide
    rw [first] at letter
    exact absurd letter (by decide)
  refine ⟨other, ?_⟩
  have shape : ∃ others, writtenParameters xywh (mediaFragmentParameters raw) =
      parameter :: others := by
    rw [parameters, writtenParameters]
    split
    · rw [map_cons, writeParameter_other other]
      exact ⟨_, rfl⟩
    · exact ⟨_, rfl⟩
  obtain ⟨others, same⟩ := shape
  refine ⟨others, fun none => ?_, same⟩
  obtain ⟨value, -, single⟩ := writtenParameters_value valid few
  have unread : xywhParameter? parameter = Option.none := by simpa [isXYWH] using other
  rw [same, none, filterMap_cons, unread] at single
  cases single

theorem mediaFragmentParameters_marked (marked : Marked raw) :
    ∃ parameter after rest others, mediaFragmentParameters raw = parameter :: rest ∧
      parameter.toList = '#' :: after ∧
      isXYWH parameter = false ∧ writtenParameters xywh
        (mediaFragmentParameters raw) = parameter :: others ∧
      mediaFragmentParameters updated =
        String.ofList (after.dropWhile Text.unicodeSpace) :: others := by
  obtain ⟨valid, few, same⟩ := replaceMediaFragmentPixelXYWH_ok_iff.mp done
  obtain ⟨tail, whole⟩ := isPrefixOf_iff_prefix.mp marked
  obtain ⟨parameter, rest, parameters⟩ : ∃ parameter rest,
      mediaFragmentParameters raw = parameter :: rest := by
    cases parameters : mediaFragmentParameters raw with
    | nil =>
      have empty := join_mediaFragmentParameters raw
      rw [parameters] at empty
      rw [← empty] at whole
      cases whole
    | cons parameter rest => exact ⟨parameter, rest, rfl⟩
  obtain ⟨after, mark⟩ : ∃ after, parameter.toList = '#' :: after := by
    have first : (fragmentText raw).toList.head? = some '#' := by rw [← whole]; rfl
    rw [← join_mediaFragmentParameters, parameters, head_join] at first
    cases chars : parameter.toList with
    | nil =>
      rw [chars, head?_nil, Option.none_or] at first
      split at first <;> cases first
    | cons c after =>
      rw [chars, head?_cons, Option.some_or, Option.some.injEq] at first
      exact ⟨after, by rw [first]⟩
  obtain ⟨other, others, filled, written⟩ := written_marked done parameters mark
  have free := writtenParameters_free valid raw
  have last := writtenParameters_last valid raw
  rw [written] at same free last
  refine ⟨parameter, after, rest, others, parameters, mark, other, written, ?_⟩
  rw [same]
  exact mediaFragmentParameters_unmarking mark filled (fun other among =>
    free other (mem_cons_of_mem _ among))
    (free parameter mem_cons_self) last

theorem otherParameters_marked (marked : Marked raw) :
    otherParameters updated ≠ otherParameters raw := by
  obtain ⟨valid, few, same⟩ := replaceMediaFragmentPixelXYWH_ok_iff.mp done
  obtain ⟨parameter, after, rest, others, parameters, mark, other, written, read⟩ :=
    mediaFragmentParameters_marked done marked
  intro equal
  have kept := writtenParameters_others valid (mediaFragmentParameters raw)
  rw [written, parameters] at kept
  simp only [otherParameters, read, parameters, filter_cons, other, Bool.not_false, if_true,
    List.cons.injEq, true_and] at equal kept
  split at equal
  · have lengths := congrArg (fun text => text.toList.length) (List.cons.inj equal).1
    simp only [String.toList_ofList, mark, length_cons] at lengths
    have shorter : (after.dropWhile Text.unicodeSpace).length ≤ after.length :=
      (dropWhile_sublist _).length_le
    omega
  · rw [kept] at equal
    exact absurd (congrArg List.length equal) (by simp)

theorem read_written {found : Option String} (read : mediaFragmentPixelXYWH updated = .ok found) :
    ∃ value, found = some value ∧ Written xywh value := by
  obtain ⟨valid, few, -⟩ := replaceMediaFragmentPixelXYWH_ok_iff.mp done
  obtain ⟨value, written, single⟩ := writtenParameters_value valid few
  have inside : value ∈ (mediaFragmentParameters updated).filterMap xywhParameter? := by
    by_cases marked : Marked raw
    · obtain ⟨parameter, after, rest, others, -, -, other, whole, parameters⟩ :=
        mediaFragmentParameters_marked done marked
      have unread : xywhParameter? parameter = none := by simpa [isXYWH] using other
      rw [whole, filterMap_cons_none unread] at single
      rw [parameters, ← singleton_append, filterMap_append, single]
      exact mem_append_right _ (mem_singleton_self value)
    · rw [mediaFragmentParameters_written done marked, single]
      exact mem_singleton_self value
  rw [mediaFragmentPixelXYWH] at read
  split at read
  · rename_i none
    simp [none] at inside
  · rename_i only one
    rw [one, mem_singleton] at inside
    subst inside
    simp only [written.trimmed, written.filled, if_false, Except.ok.injEq] at read
    exact ⟨value, read.symm, written⟩
  · cases read

theorem denotes_written (unmarked : ¬ Marked raw) : Denotes updated xywh := by
  obtain ⟨valid, few, -⟩ := replaceMediaFragmentPixelXYWH_ok_iff.mp done
  obtain ⟨value, written, single⟩ := writtenParameters_value valid few
  obtain ⟨box, parsed⟩ := valid
  refine ⟨value, box, ?_, (parsePixelXYWH_congr written.same).trans parsed, parsed⟩
  rw [mediaFragmentPixelXYWH, mediaFragmentParameters_written done unmarked, single]
  simp only [written.trimmed, written.filled, if_false]

theorem not_marked_written (unmarked : ¬ Marked raw) : ¬ Marked updated := by
  obtain ⟨valid, -, same⟩ := replaceMediaFragmentPixelXYWH_ok_iff.mp done
  intro marked
  obtain ⟨tail, whole⟩ := isPrefixOf_iff_prefix.mp marked
  have first : (fragmentText updated).toList.head? = some '#' := by rw [← whole]; rfl
  rw [← join_mediaFragmentParameters, mediaFragmentParameters_written done unmarked] at first
  rcases writtenParameters_first valid raw '#' first with letter | separator | kept
  · exact absurd letter (by decide)
  · exact absurd separator (by decide)
  · refine unmarked ?_
    rw [Marked, Go.hasPrefix, isPrefixOf_iff_prefix]
    cases chars : (fragmentText raw).toList with
    | nil => simp [chars] at kept
    | cons c rest =>
      rw [chars, head?_cons, Option.some.injEq] at kept
      exact ⟨rest, by rw [kept]; rfl⟩

theorem countP_written (unmarked : ¬ Marked raw) :
    (mediaFragmentParameters updated).countP isXYWH = 1 := by
  obtain ⟨valid, few, -⟩ := replaceMediaFragmentPixelXYWH_ok_iff.mp done
  obtain ⟨value, -, single⟩ := writtenParameters_value valid few
  have counted : ((mediaFragmentParameters updated).filterMap xywhParameter?).length =
      (mediaFragmentParameters updated).countP isXYWH := length_filterMap_eq_countP
  rw [← counted, mediaFragmentParameters_written done unmarked, single]
  rfl

end

theorem removeMediaFragmentPixelXYWH_eq {raw : String}
    (few : (mediaFragmentParameters raw).countP isXYWH ≤ 1) :
    removeMediaFragmentPixelXYWH raw = .ok (String.intercalate "&" (otherParameters raw)) := by
  have counted : ((mediaFragmentParameters raw).filterMap xywhParameter?).length =
      (mediaFragmentParameters raw).countP isXYWH := length_filterMap_eq_countP
  have same : (fun parameter => (xywhParameter? parameter).isNone) = fun parameter =>
      !isXYWH parameter := by
    funext parameter
    rw [isXYWH, Option.not_isSome]
  rw [removeMediaFragmentPixelXYWH]
  simp only [counted, same, Nat.not_lt.mpr few, if_false]
  rfl

/-- An edit obeys the laws exactly when no second mark leads the fragment. -/
theorem media_fragment_edit_iff {raw xywh updated next : String}
    (done : replaceMediaFragmentPixelXYWH raw xywh = .ok updated) (valid : ValidXYWH next) :
    LawfulEdit raw xywh next updated ↔ ¬ Marked raw := by
  constructor
  · intro lawful marked
    exact otherParameters_marked done marked lawful.others
  · intro unmarked
    obtain ⟨validFirst, few, -⟩ := replaceMediaFragmentPixelXYWH_ok_iff.mp done
    have read := mediaFragmentParameters_written done unmarked
    have one := countP_written done unmarked
    have others : otherParameters updated = otherParameters raw := by
      rw [otherParameters, read]
      exact writtenParameters_others validFirst _
    have second := replaceMediaFragmentPixelXYWH_ok_iff.mpr ⟨valid, one.le, rfl⟩
    refine ⟨denotes_written done unmarked,
      ⟨_, second, denotes_written second (not_marked_written done unmarked)⟩, others, ?_,
      fun position found => ?_⟩
    · rw [removeMediaFragmentPixelXYWH_eq one.le, removeMediaFragmentPixelXYWH_eq few, others]
    · rw [read]
      exact writtenParameters_position validFirst found

theorem ok_of_toOption {α : Type} {first : Except String α} {value : α}
    (evaluated : first.toOption = some value) : first = .ok value := by
  cases first with
  | error message => cases evaluated
  | ok result => rw [Option.some.inj evaluated]

theorem media_fragment_edit_timed :
    LawfulEdit " #t=1&xywh=pixel:1,2,3,4&track=a " "5,6,7,8" "9,9,1,1"
      "t=1&xywh=pixel:5,6,7,8&track=a" :=
  (media_fragment_edit_iff (ok_of_toOption (by decide +kernel))
    ⟨[9, 9, 1, 1], ok_of_toOption (by decide +kernel)⟩).mpr (by
      unfold Marked
      decide +kernel)

/-- The first parameter loses its mark, and a rectangle behind a second mark becomes a second
rectangle. -/
theorem second_mark_lost :
    mediaFragmentPixelXYWH "##t=1&xywh=1,2,3,4" = .ok (some "1,2,3,4") ∧
    replaceMediaFragmentPixelXYWH "##t=1&xywh=1,2,3,4" "5,6,7,8" = .ok "#t=1&xywh=5,6,7,8" ∧
    otherParameters "##t=1&xywh=1,2,3,4" = ["#t=1"] ∧ otherParameters "#t=1&xywh=5,6,7,8" = ["t=1"] ∧
    mediaFragmentPixelXYWH "##xywh=9,9,9,9&xywh=1,2,3,4" = .ok (some "1,2,3,4") ∧
    replaceMediaFragmentPixelXYWH "##xywh=9,9,9,9&xywh=1,2,3,4" "5,6,7,8" =
      .ok "#xywh=9,9,9,9&xywh=5,6,7,8" ∧
    mediaFragmentPixelXYWH "#xywh=9,9,9,9&xywh=5,6,7,8" = .error multipleParameters := by
  have twice : (mediaFragmentParameters "#xywh=9,9,9,9&xywh=5,6,7,8").filterMap xywhParameter? =
      ["9,9,9,9", "5,6,7,8"] := by decide +kernel
  refine ⟨ok_of_toOption (by decide +kernel), ok_of_toOption (by decide +kernel),
    by decide +kernel, by decide +kernel, ok_of_toOption (by decide +kernel),
    ok_of_toOption (by decide +kernel), ?_⟩
  rw [mediaFragmentPixelXYWH, twice]

end Scribe.Iiif
