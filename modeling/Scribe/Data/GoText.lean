import Scribe.Data.Text
import Mathlib.Data.List.TakeDrop

/-! The string functions the server calls, on texts of Unicode characters. -/

set_option autoImplicit false

namespace Scribe.Go

open List

def trimSpace (text : String) : String := Text.trim Text.unicodeSpace text

def fields (text : String) : List String := Text.fields Text.unicodeSpace text

def join (texts : List String) : String := String.intercalate " " texts

def hasPrefix (text start : String) : Bool := start.toList.isPrefixOf text.toList

def trimPrefix (text start : String) : String :=
  if hasPrefix text start then String.ofList (text.toList.drop start.toList.length) else text

def trimRight (text : String) (c : Char) : String := String.ofList (text.toList.rdropWhile (· = c))

/-- The text around the first separator, and whether there is one. -/
def cut (text : String) (separator : Char) : String × String × Bool :=
  match text.toList.span (· ≠ separator) with
  | (before, _ :: after) => (String.ofList before, String.ofList after, true)
  | (_, []) => (text, "", false)

def split (text : String) (separator : Char) : List String :=
  (text.toList.splitOn separator).map String.ofList

/-- The ASCII letter a character folds to. Outside ASCII the long s and the kelvin
sign are the only characters that fold to one. -/
def foldChar (c : Char) : Char :=
  if c.toNat = 0x17F then 's' else if c.toNat = 0x212A then 'k' else c.toLower

def equalFold (text literal : String) : Bool :=
  text.toList.map foldChar = literal.toList.map foldChar

/-- The ASCII letter a character has as its lower case. Outside ASCII these are the
dotted capital I and the kelvin sign. -/
def lowerChar (c : Char) : Char :=
  if c.toNat = 0x130 then 'i' else if c.toNat = 0x212A then 'k' else c.toLower

/-- Whether the lower case of a text is an ASCII literal. -/
def lowersTo (text literal : String) : Bool := text.toList.map lowerChar = literal.toList

/-- A text in double quotes. Characters beyond ASCII are taken as printable. -/
def quote (text : String) : String :=
  let escape (c : Char) : List Char :=
    if c = '"' ∨ c = '\\' then ['\\', c]
    else if c = '\n' then ['\\', 'n']
    else if c = '\r' then ['\\', 'r']
    else if c = '\t' then ['\\', 't']
    else if c.toNat < 32 ∨ c.toNat = 127 then
      ['\\', 'x', Nat.digitChar (c.toNat / 16), Nat.digitChar (c.toNat % 16)]
    else [c]
  String.ofList ('"' :: text.toList.flatMap escape ++ ['"'])

theorem trimSpace_trimSpace (text : String) : trimSpace (trimSpace text) = trimSpace text :=
  Text.trim_trim text

theorem fields_join {tokens : List String}
    (valid : ∀ token ∈ tokens, Text.IsField Text.unicodeSpace token) :
    fields (join tokens) = tokens :=
  Text.fields_join valid (by decide)

theorem fields_of_isField {text : String} (isField : Text.IsField Text.unicodeSpace text) :
    fields text = [text] := by
  have tokens : fields (join [text]) = [text] := fields_join (by simpa using isField)
  exact tokens

theorem fields_isField (text token : String) (member : token ∈ fields text) :
    Text.IsField Text.unicodeSpace token :=
  Text.fields_isField text token member

theorem trimSpace_of_isField {text : String} (isField : Text.IsField Text.unicodeSpace text) :
    trimSpace text = text :=
  Text.trim_of_isField isField

theorem cut_append {key value : String} {separator : Char} (absent : separator ∉ key.toList) :
    cut (key ++ String.singleton separator ++ value) separator = (key, value, true) := by
  have all : ∀ c ∈ key.toList, decide (c ≠ separator) = true := by
    intro c member
    simp only [ne_eq, decide_not, Bool.not_eq_eq_eq_not, Bool.not_true, decide_eq_false_iff_not]
    rintro rfl
    exact absent member
  have whole : (key ++ String.singleton separator ++ value).toList =
      key.toList ++ separator :: value.toList := by
    simp
  unfold cut
  rw [whole, span_eq_takeWhile_dropWhile, takeWhile_append_of_pos all, dropWhile_append_of_pos all]
  simp

theorem cut_eq_true {text key value : String} {separator : Char}
    (found : cut text separator = (key, value, true)) :
    text = key ++ String.singleton separator ++ value ∧ separator ∉ key.toList := by
  unfold cut at found
  rw [span_eq_takeWhile_dropWhile] at found
  cases rest : text.toList.dropWhile (· ≠ separator) with
  | nil =>
    rw [rest] at found
    simp at found
  | cons c after =>
    simp only [rest, Prod.mk.injEq, and_true] at found
    obtain ⟨rfl, rfl⟩ := found
    have isSeparator : c = separator := by
      have negative := head?_dropWhile_not (fun c => decide (c ≠ separator)) text.toList
      rw [rest] at negative
      simpa using negative
    refine ⟨?_, ?_⟩
    · have split :=
        takeWhile_append_dropWhile (p := fun c => decide (c ≠ separator)) (l := text.toList)
      rw [rest, isSeparator] at split
      apply String.toList_inj.mp
      simpa using split.symm
    · intro member
      have kept := mem_takeWhile_imp (by simpa using member)
      simp at kept

theorem cut_of_not_mem {text : String} {separator : Char} (absent : separator ∉ text.toList) :
    cut text separator = (text, "", false) := by
  have all : ∀ c ∈ text.toList, decide (c ≠ separator) = true := by
    intro c member
    simp only [ne_eq, decide_not, Bool.not_eq_eq_eq_not, Bool.not_true, decide_eq_false_iff_not]
    rintro rfl
    exact absent member
  unfold cut
  rw [span_eq_takeWhile_dropWhile, dropWhile_eq_nil_iff.mpr all]

theorem not_mem_cut_fst (text : String) (separator : Char) :
    separator ∉ (cut text separator).1.toList := by
  by_cases member : separator ∈ text.toList
  · rcases found : cut text separator with ⟨key, value, isCut⟩
    cases isCut with
    | true => exact (cut_eq_true found).2
    | false =>
      unfold cut at found
      rw [span_eq_takeWhile_dropWhile] at found
      cases rest : text.toList.dropWhile (· ≠ separator) with
      | nil => exact absurd rfl (of_decide_eq_true (dropWhile_eq_nil_iff.mp rest separator member))
      | cons c after =>
        rw [rest] at found
        simp at found
  · rw [cut_of_not_mem member]
    exact member

theorem not_mem_of_mem_split {text part : String} {separator : Char}
    (member : part ∈ split text separator) : separator ∉ part.toList := by
  obtain ⟨chars, inside, rfl⟩ := mem_map.mp member
  rw [String.toList_ofList]
  clear member
  generalize text.toList = whole at inside
  induction whole generalizing chars with
  | nil =>
    simp only [splitOn_nil, mem_singleton] at inside
    simp [inside]
  | cons c rest ih =>
    rw [splitOn_cons_eq_if_modifyHead] at inside
    split at inside
    · rcases mem_cons.mp inside with rfl | inside
      · simp
      · exact ih chars inside
    · rename_i apart
      obtain ⟨head, tail, parts⟩ := exists_cons_of_ne_nil (splitOn_ne_nil separator rest)
      rw [parts, modifyHead_cons] at inside
      have different : separator ≠ c := fun same => apart (by simp [same])
      rcases mem_cons.mp inside with rfl | inside
      · have free := ih head (by rw [parts]; exact mem_cons_self)
        simp [different, free]
      · exact ih chars (by rw [parts]; exact mem_cons_of_mem _ inside)

theorem join_split (text : String) (separator : Char) :
    String.intercalate (String.singleton separator) (split text separator) = text := by
  apply String.toList_inj.mp
  rw [String.toList_intercalate, split, map_map, String.toList_comp_ofList, map_id,
    String.toList_singleton]
  exact intercalate_splitOn separator

theorem split_join {parts : List String} {separator : Char} (filled : parts ≠ [])
    (free : ∀ part ∈ parts, separator ∉ part.toList) :
    split (String.intercalate (String.singleton separator) parts) separator = parts := by
  have chars : ∀ part ∈ parts.map String.toList, separator ∉ part := by
    intro part among
    obtain ⟨text, member, rfl⟩ := mem_map.mp among
    exact free text member
  rw [split, String.toList_intercalate, String.toList_singleton,
    splitOn_intercalate separator chars (by simpa using filled), map_map]
  simp

theorem exists_mem_split {text : String} {separator c : Char} (among : c ∈ text.toList)
    (apart : c ≠ separator) : ∃ part ∈ split text separator, c ∈ part.toList := by
  have whole : [separator].intercalate (text.toList.splitOn separator) = text.toList :=
    intercalate_splitOn separator
  rw [← whole] at among
  have found : ∃ chars ∈ text.toList.splitOn separator, c ∈ chars := by
    generalize text.toList.splitOn separator = pieces at among
    induction pieces with
    | nil => simp at among
    | cons piece rest ih =>
      cases rest with
      | nil => exact ⟨piece, mem_cons_self, by simpa using among⟩
      | cons next rest =>
        rw [intercalate_cons_cons, mem_append, mem_append] at among
        rcases among with (here | mark) | later
        · exact ⟨piece, mem_cons_self, here⟩
        · exact absurd (mem_singleton.mp mark) apart
        · obtain ⟨chars, member, inside⟩ := ih later
          exact ⟨chars, mem_cons_of_mem _ member, inside⟩
  obtain ⟨chars, member, inside⟩ := found
  exact ⟨String.ofList chars, mem_map.mpr ⟨chars, member, rfl⟩, by rwa [String.toList_ofList]⟩

end Scribe.Go
