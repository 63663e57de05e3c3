import Scribe.Data.Assoc
import Mathlib.Algebra.Order.Ring.Nat

/-! JSON values as the editor and the server exchange them.

A number keeps its source literal: the server decodes with exact number tokens
and the browser carries unrepresentable ones as text. An object lists each key
once, in order of first insertion.
-/

set_option autoImplicit false

namespace Scribe

inductive Json where
  | null
  | bool (value : Bool)
  | num (literal : String)
  | str (value : String)
  | arr (entries : List Json)
  | obj (fields : List (String × Json))
  deriving Repr, Inhabited

abbrev Object := List (String × Json)

namespace Json

mutual
def decEq : (left right : Json) → Decidable (left = right)
  | .null, .null => isTrue rfl
  | .bool a, .bool b => decidable_of_iff (a = b) (by simp)
  | .num a, .num b => decidable_of_iff (a = b) (by simp)
  | .str a, .str b => decidable_of_iff (a = b) (by simp)
  | .arr as, .arr bs => match decEqList as bs with
      | isTrue same => isTrue (same ▸ rfl)
      | isFalse apart => isFalse fun same => apart (Json.arr.inj same)
  | .obj as, .obj bs => match decEqFields as bs with
      | isTrue same => isTrue (same ▸ rfl)
      | isFalse apart => isFalse fun same => apart (Json.obj.inj same)
  | .null, .bool _ | .null, .num _ | .null, .str _ | .null, .arr _ | .null, .obj _ => isFalse nofun
  | .bool _, .null | .bool _, .num _ | .bool _, .str _ | .bool _, .arr _ | .bool _,
    .obj _ => isFalse nofun
  | .num _, .null | .num _, .bool _ | .num _, .str _ | .num _, .arr _ | .num _, .obj _ => isFalse nofun
  | .str _, .null | .str _, .bool _ | .str _, .num _ | .str _, .arr _ | .str _, .obj _ => isFalse nofun
  | .arr _, .null | .arr _, .bool _ | .arr _, .num _ | .arr _, .str _ | .arr _, .obj _ => isFalse nofun
  | .obj _, .null | .obj _, .bool _ | .obj _, .num _ | .obj _, .str _ | .obj _, .arr _ => isFalse nofun

def decEqList : (left right : List Json) → Decidable (left = right)
  | [], [] => isTrue rfl
  | a :: as, b :: bs => match decEq a b, decEqList as bs with
      | isTrue head, isTrue tail => isTrue (by rw [head, tail])
      | isFalse apart, _ => isFalse fun same => apart (List.cons.inj same).1
      | _, isFalse apart => isFalse fun same => apart (List.cons.inj same).2
  | [], _ :: _ | _ :: _, [] => isFalse nofun

def decEqFields : (left right : List (String × Json)) → Decidable (left = right)
  | [], [] => isTrue rfl
  | (k, a) :: as, (l, b) :: bs =>
      match (inferInstance : Decidable (k = l)), decEq a b, decEqFields as bs with
      | isTrue key, isTrue head, isTrue tail => isTrue (by rw [key, head, tail])
      | isFalse apart, _, _ => isFalse fun same => apart (Prod.mk.inj (List.cons.inj same).1).1
      | _, isFalse apart, _ => isFalse fun same => apart (Prod.mk.inj (List.cons.inj same).1).2
      | _, _, isFalse apart => isFalse fun same => apart (List.cons.inj same).2
  | [], _ :: _ | _ :: _, [] => isFalse nofun
end

instance : DecidableEq Json := decEq

mutual
/-- Structural equality of values that ignores the order of object keys. It is
the editor's `same` and the server's deep equality on decoded documents. -/
def same : Json → Json → Bool
  | .null, .null => true
  | .bool a, .bool b => a == b
  | .num a, .num b => a == b
  | .str a, .str b => a == b
  | .arr as, .arr bs => sameList as bs
  | .obj as, .obj bs => as.length == bs.length && sameFields as bs
  | _, _ => false

def sameList : List Json → List Json → Bool
  | [], [] => true
  | a :: as, b :: bs => same a b && sameList as bs
  | _, _ => false

def sameFields : List (String × Json) → List (String × Json) → Bool
  | [], _ => true
  | (key, value) :: rest, other =>
      (match Assoc.get other key with
        | some found => same value found
        | none => false) && sameFields rest other
end

def field (object : Object) (key : String) : Json := (Assoc.get object key).getD .null

@[simp] theorem field_set_self (object : Object) (key : String) (value : Json) :
    field (Assoc.set object key value) key = value := by
  simp [field]

theorem field_set_of_ne (object : Object) {key other : String} (value : Json) (apart : key ≠ other) :
    field (Assoc.set object key value) other = field object other := by
  simp [field, Assoc.get_set_of_ne object value apart]

theorem field_erase_of_ne (object : Object) {key other : String} (apart : key ≠ other) :
    field (Assoc.erase object key) other = field object other := by
  simp [field, Assoc.get_erase, apart]

theorem get_of_field {object : Object} {key : String} {value : Json} (found : field object key = value)
    (present : value ≠ .null) : Assoc.get object key = some value := by
  cases here : Assoc.get object key with
  | none =>
    rw [field, here] at found
    exact absurd found.symm present
  | some other =>
    rw [field, here] at found
    exact congrArg some found

def toObject : Json → Object
  | .obj fields => fields
  | _ => []

@[simp] theorem toObject_obj (object : Object) : toObject (.obj object) = object := rfl

/-! ## The encoded size

Encoding sorts keys and escapes characters that HTML gives a meaning; neither
depends on anything but the value, so only the size is needed here. -/

/-- The bytes one character of a string takes in the encoded text. -/
def charBytes (c : Char) : Nat :=
  if c = '"' ∨ c = '\\' ∨ c = '\n' ∨ c = '\r' ∨ c = '\t' ∨ c.toNat = 8 ∨ c.toNat = 12 then 2
  else if c.toNat < 32 ∨ c = '<' ∨ c = '>' ∨ c = '&' ∨ c.toNat = 0x2028 ∨ c.toNat = 0x2029 then 6
  else c.utf8Size

def stringBytes (text : String) : Nat := 2 + (text.toList.map charBytes).sum

mutual
def encodedBytes : Json → Nat
  | .null => 4
  | .bool true => 4
  | .bool false => 5
  | .num literal => literal.utf8ByteSize
  | .str value => stringBytes value
  | .arr entries => 2 + (entries.length - 1) + entriesBytes entries
  | .obj fields => 2 + (fields.length - 1) + fieldsBytes fields

def entriesBytes : List Json → Nat
  | [] => 0
  | entry :: rest => encodedBytes entry + entriesBytes rest

def fieldsBytes : List (String × Json) → Nat
  | [] => 0
  | (key, value) :: rest => stringBytes key + 1 + encodedBytes value + fieldsBytes rest
end

mutual
/-- How many arrays and objects are open at once in the encoded text. -/
def nesting : Json → Nat
  | .arr entries => 1 + nestingEntries entries
  | .obj fields => 1 + nestingFields fields
  | _ => 0

def nestingEntries : List Json → Nat
  | [] => 0
  | entry :: rest => max (nesting entry) (nestingEntries rest)

def nestingFields : List (String × Json) → Nat
  | [] => 0
  | (_, value) :: rest => max (nesting value) (nestingFields rest)
end

end Json

end Scribe
