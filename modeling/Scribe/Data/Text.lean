import Mathlib.Data.List.Basic
import Mathlib.Data.List.DropRight

/-! Trimming and splitting text at a class of separator characters.

Both ends of the system trim texts and cut them into fields, each with its own
notion of white space; the operations here take that notion as a parameter.
-/

set_option autoImplicit false

namespace Scribe.Text

open List

section
variable (space : Char → Bool)

def trimChars (chars : List Char) : List Char :=
  (chars.dropWhile space).rdropWhile space

/-- Cut into maximal runs without separators. `pending` is the current run, reversed. -/
def fieldsFrom (pending : List Char) : List Char → List (List Char)
  | [] => if pending = [] then [] else [pending.reverse]
  | c :: rest =>
      if space c then
        if pending = [] then fieldsFrom [] rest else pending.reverse :: fieldsFrom [] rest
      else fieldsFrom (c :: pending) rest

def trim (text : String) : String := String.ofList (trimChars space text.toList)

def fields (text : String) : List String := (fieldsFrom space [] text.toList).map String.ofList

def IsField (token : String) : Prop := token ≠ "" ∧ ∀ c ∈ token.toList, space c = false

instance (token : String) : Decidable (IsField space token) :=
  decidable_of_iff (token ≠ "" ∧ (token.toList.all fun c => !space c) = true)
    (by simp only [IsField, all_eq_true, Bool.not_eq_true'])

variable {space}

theorem fieldsFrom_append_of_free (run rest pending : List Char) (free : ∀ c ∈ run, space c = false) :
    fieldsFrom space pending (run ++ rest) = fieldsFrom space (run.reverse ++ pending) rest := by
  induction run generalizing pending with
  | nil => rfl
  | cons c run ih =>
    have head := free c (by simp)
    have tail : ∀ c ∈ run, space c = false := fun c member => free c (by simp [member])
    simp only [cons_append, fieldsFrom, head, Bool.false_eq_true, if_false]
    rw [ih _ tail]
    simp

theorem rdropWhile_append_suffix (chars : List Char) :
    ∃ suffix : List Char, chars = chars.rdropWhile space ++ suffix ∧ ∀ c ∈ suffix, space c = true := by
  refine ⟨chars.rtakeWhile space, ?_, ?_⟩
  · have split := takeWhile_append_dropWhile (p := space) (l := chars.reverse)
    have turned := congrArg List.reverse split
    rw [reverse_append, reverse_reverse] at turned
    exact turned.symm
  · intro c member
    exact mem_rtakeWhile_imp member

theorem fieldsFrom_free (chars pending : List Char) (free : ∀ c ∈ pending, space c = false) :
    ∀ token ∈ fieldsFrom space pending chars, token ≠ [] ∧ ∀ c ∈ token, space c = false := by
  induction chars generalizing pending with
  | nil =>
    intro token member
    by_cases empty : pending = []
    · simp [fieldsFrom, empty] at member
    · simp only [fieldsFrom, empty, if_false, mem_singleton] at member
      subst member
      exact ⟨by simpa using empty, fun c found => free c (by simpa using found)⟩
  | cons c rest ih =>
    have next := ih [] (by simp)
    by_cases separator : space c = true
    · by_cases empty : pending = []
      · simpa [fieldsFrom, separator, empty] using next
      · intro token member
        simp only [fieldsFrom, separator, if_true, empty, if_false, mem_cons] at member
        rcases member with same | member
        · subst same
          exact ⟨by simpa using empty, fun c found => free c (by simpa using found)⟩
        · exact next token member
    · have extended : ∀ d ∈ c :: pending, space d = false := by
        intro d member
        rcases mem_cons.mp member with same | member
        · simpa [same] using separator
        · exact free d member
      simpa [fieldsFrom, separator] using ih (c :: pending) extended

theorem fields_isField (text : String) : ∀ token ∈ fields space text, IsField space token := by
  intro token member
  obtain ⟨chars, found, same⟩ := mem_map.mp member
  obtain ⟨nonempty, free⟩ := fieldsFrom_free text.toList [] (by simp) chars found
  subst same
  exact ⟨by simpa using nonempty, by simpa using free⟩

theorem fields_join {tokens : List String} (valid : ∀ token ∈ tokens, IsField space token)
    (separator : space ' ' = true) : fields space (String.intercalate " " tokens) = tokens := by
  suffices chars : fieldsFrom space [] ([' '].intercalate (tokens.map String.toList)) =
      tokens.map String.toList by
    simp only [fields, String.toList_intercalate, String.reduceToList]
    rw [chars, map_map, String.ofList_comp_toList, map_id]
  induction tokens with
  | nil => rfl
  | cons token rest ih =>
    obtain ⟨nonempty, free⟩ := valid token (by simp)
    have pending : token.toList.reverse ≠ [] := by simpa using nonempty
    have tail := ih fun other member => valid other (by simp [member])
    cases rest with
    | nil =>
      have last := fieldsFrom_append_of_free token.toList [] [] free
      simp only [append_nil, fieldsFrom, pending, if_false, reverse_reverse] at last
      simpa [List.intercalate] using last
    | cons next rest =>
      simp only [map_cons, intercalate_cons_cons] at tail ⊢
      rw [append_assoc, fieldsFrom_append_of_free _ _ _ free, append_nil]
      simp only [singleton_append, fieldsFrom, separator, if_true, pending, if_false, reverse_reverse]
      rw [tail]

theorem mem_trimChars {chars : List Char} {c : Char} (member : c ∈ chars) (visible : space c = false) :
    c ∈ trimChars space chars := by
  have dropped : ∀ {text : List Char}, c ∈ text → c ∈ text.dropWhile space := by
    intro text inside
    rw [← takeWhile_append_dropWhile (p := space) (l := text), mem_append] at inside
    rcases inside with blank | rest
    · rw [mem_takeWhile_imp blank] at visible
      cases visible
    · exact rest
  exact mem_reverse.mpr (dropped (mem_reverse.mpr (dropped member)))

theorem trim_ne_empty {text : String} {c : Char} (member : c ∈ text.toList)
    (visible : space c = false) : trim space text ≠ "" := by
  intro empty
  have none := congrArg String.toList empty
  rw [trim, String.toList_ofList] at none
  have inside := mem_trimChars member visible
  rw [none] at inside
  cases inside

theorem trimChars_of_ends {chars : List Char} (first : ∀ c, chars.head? = some c → space c = false)
    (last : ∀ c, chars.getLast? = some c → space c = false) : trimChars space chars = chars := by
  have left : chars.dropWhile space = chars := by
    cases chars with
    | nil => rfl
    | cons c rest => exact dropWhile_cons_of_neg (by simp [first c rfl])
  rw [trimChars, left]
  rcases eq_nil_or_concat chars with empty | ⟨init, c, same⟩
  · simp [empty]
  · rw [concat_eq_append] at same
    subst same
    have kept := last c (by simp)
    exact rdropWhile_concat_neg space init c (by simp [kept])

theorem dropWhile_append_core (before core : List Char) (filled : core ≠ [])
    (first : ∀ c, core.head? = some c → space c = false) :
    (before ++ core).dropWhile space = before.dropWhile space ++ core := by
  have kept : core.dropWhile space = core := by
    cases core with
    | nil => exact absurd rfl filled
    | cons c rest => exact dropWhile_cons_of_neg (by simp [first c rfl])
  rw [dropWhile_append]
  split
  · rename_i empty
    rw [List.isEmpty_iff.mp empty, kept, nil_append]
  · rfl

theorem head?_trimChars (chars : List Char) : ∀ c, (trimChars space chars).head? = some c →
      space c = false := by
  intro c found
  obtain ⟨suffix, split, _⟩ := @rdropWhile_append_suffix space (chars.dropWhile space)
  have front : (chars.dropWhile space).head? = some c := by
    rw [split]
    unfold trimChars at found
    cases kept : (chars.dropWhile space).rdropWhile space with
    | nil => simp [kept] at found
    | cons d rest => simpa [kept] using found
  have negative := head?_dropWhile_not space chars
  rw [front] at negative
  simpa using negative

theorem getLast?_trimChars (chars : List Char) : ∀ c, (trimChars space chars).getLast? = some c →
      space c = false := by
  intro c found
  have turned : ((chars.dropWhile space).reverse.dropWhile space).head? = some c := by
    simpa [trimChars, List.rdropWhile] using found
  have negative := head?_dropWhile_not space (chars.dropWhile space).reverse
  rw [turned] at negative
  simpa using negative

@[simp] theorem trim_trim (text : String) : trim space (trim space text) = trim space text := by
  simp only [trim, String.toList_ofList]
  rw [trimChars_of_ends (head?_trimChars _) (getLast?_trimChars _)]

theorem trim_of_isField {token : String} (valid : IsField space token) : trim space token = token := by
  have kept : trimChars space token.toList = token.toList :=
    trimChars_of_ends (fun c found => valid.2 c (mem_of_mem_head? found))
      (fun c found => valid.2 c (mem_of_getLast? found))
  rw [trim, kept, String.ofList_toList]

theorem ends_intercalate (parts : List (List Char)) (filled : ∀ part ∈ parts, part ≠ []) :
    (∀ c, ([' '].intercalate parts).head? = some c → ∃ part ∈ parts, part.head? = some c) ∧
      (∀ c, ([' '].intercalate parts).getLast? = some c → ∃ part ∈ parts, part.getLast? = some c) := by
  induction parts with
  | nil => simp [List.intercalate]
  | cons part rest ih =>
    obtain ⟨front, back⟩ := ih fun other member => filled other (by simp [member])
    have filledHere := filled part (by simp)
    cases rest with
    | nil =>
      refine ⟨fun c found => ⟨part, by simp, ?_⟩, fun c found => ⟨part, by simp, ?_⟩⟩
      · simpa [List.intercalate] using found
      · simpa [List.intercalate] using found
    | cons next rest =>
      rw [intercalate_cons_cons, append_assoc]
      have nextFilled : [' '].intercalate (next :: rest) ≠ [] := by
        have := filled next (by simp)
        cases rest with
        | nil => simpa [List.intercalate] using this
        | cons _ _ => simp [intercalate_cons_cons, this]
      refine ⟨fun c found => ⟨part, by simp, ?_⟩, fun c found => ?_⟩
      · rwa [head?_append_of_ne_nil _ filledHere] at found
      · rw [getLast?_append_of_ne_nil _ (by simp), getLast?_append_of_ne_nil _ nextFilled] at found
        obtain ⟨other, member, isLast⟩ := back c found
        exact ⟨other, by simp [member], isLast⟩

theorem trim_join_of_trimmed {texts : List String}
    (trimmed : ∀ text ∈ texts, text ≠ "" ∧ trim space text = text) :
    trim space (String.intercalate " " texts) = String.intercalate " " texts := by
  have nonempty : ∀ chars ∈ texts.map String.toList, chars ≠ [] := by
    intro chars member
    obtain ⟨text, found, rfl⟩ := mem_map.mp member
    simpa using (trimmed text found).1
  have chars_of : ∀ text ∈ texts, trimChars space text.toList = text.toList := by
    intro text member
    have same := congrArg String.toList (trimmed text member).2
    rwa [trim, String.toList_ofList] at same
  obtain ⟨front, back⟩ := ends_intercalate _ nonempty
  simp only [trim, String.toList_intercalate, String.reduceToList]
  rw [trimChars_of_ends, ← String.ofList_toList (s := String.intercalate " " texts),
    String.toList_intercalate]
  · simp
  · intro c found
    obtain ⟨part, member, isHead⟩ := front c found
    obtain ⟨text, inside, rfl⟩ := mem_map.mp member
    exact head?_trimChars text.toList c (by rw [chars_of text inside, isHead])
  · intro c found
    obtain ⟨part, member, isLast⟩ := back c found
    obtain ⟨text, inside, rfl⟩ := mem_map.mp member
    exact getLast?_trimChars text.toList c (by rw [chars_of text inside, isLast])

theorem join_ne_empty {texts : List String} (some : texts ≠ []) (filled : ∀ text ∈ texts, text ≠ "") :
    String.intercalate " " texts ≠ "" := by
  cases texts with
  | nil => exact absurd rfl some
  | cons first rest =>
    have here : first.toList ≠ [] := by simpa using filled first mem_cons_self
    intro empty
    have none := congrArg String.toList empty
    rw [String.toList_intercalate, map_cons] at none
    cases rest with
    | nil => exact here (by simpa [List.intercalate] using none)
    | cons next rest => simp [intercalate_cons_cons, here] at none

end

/-! ## The two notions of white space in use -/

/-- Code points with the Unicode `White_Space` property. -/
def unicodeSpace (c : Char) : Bool :=
  let n := c.toNat
  (9 ≤ n && n ≤ 13) || n = 0x20 || n = 0x85 || n = 0xA0 || n = 0x1680 || (0x2000 ≤ n && n ≤ 0x200A) ||
    n = 0x2028 || n = 0x2029 || n = 0x202F || n = 0x205F || n = 0x3000

/-- ECMAScript white space and line terminators: the byte order mark is one, U+0085 is not. -/
def scriptSpace (c : Char) : Bool :=
  let n := c.toNat
  (9 ≤ n && n ≤ 13) || n = 0x20 || n = 0xA0 || n = 0x1680 || (0x2000 ≤ n && n ≤ 0x200A) ||
    n = 0x2028 || n = 0x2029 || n = 0x202F || n = 0x205F || n = 0x3000 || n = 0xFEFF

end Scribe.Text
