import Mathlib.Order.Bounds.Basic
import Mathlib.Order.MinMax

/-! Edit distance: the least number of single insertions, deletions and substitutions between two
lists. -/

set_option autoImplicit false

namespace Scribe.EditDistance

variable {α : Type*}

inductive Edit : List α → List α → Prop
  | insert (x : α) (l : List α) : Edit l (x :: l)
  | delete (x : α) (l : List α) : Edit (x :: l) l
  | substitute (x y : α) (l : List α) : Edit (x :: l) (y :: l)
  | skip (x : α) {l r : List α} : Edit l r → Edit (x :: l) (x :: r)

inductive Edits : Nat → List α → List α → Prop
  | refl (l : List α) : Edits 0 l l
  | step {n : Nat} {l m r : List α} : Edits n l m → Edit m r → Edits (n + 1) l r

/-- A script goes once through both lists; its number counts the entries that are not kept. -/
inductive Script : List α → List α → Nat → Prop
  | nil : Script [] [] 0
  | keep (x : α) {l r : List α} {n : Nat} : Script l r n → Script (x :: l) (x :: r) n
  | insert (x : α) {l r : List α} {n : Nat} : Script l r n → Script l (x :: r) (n + 1)
  | delete (x : α) {l r : List α} {n : Nat} : Script l r n → Script (x :: l) r (n + 1)
  | substitute (x y : α) {l r : List α} {n : Nat} : Script l r n → Script (x :: l) (y :: r) (n + 1)

variable {l m r : List α} {n k : Nat}

theorem Script.refl (l : List α) : Script l l 0 := by
  induction l with
  | nil => exact .nil
  | cons x l ih => exact ih.keep x

/-- One more edit is at most one more entry of the script. -/
theorem Script.edit (script : Script l m n) (edit : Edit m r) : ∃ k ≤ n + 1, Script l r k := by
  induction script generalizing r with
  | nil =>
    cases edit with
    | insert x => exact ⟨1, by omega, Script.nil.insert x⟩
  | keep x script ih =>
    cases edit with
    | insert y => exact ⟨_, by omega, (script.keep x).insert y⟩
    | delete => exact ⟨_, by omega, script.delete x⟩
    | substitute _ y => exact ⟨_, by omega, script.substitute x y⟩
    | skip _ edit =>
      obtain ⟨k, few, rest⟩ := ih edit
      exact ⟨k, few, rest.keep x⟩
  | insert x script ih =>
    cases edit with
    | insert y => exact ⟨_, by omega, (script.insert x).insert y⟩
    | delete => exact ⟨_, by omega, script⟩
    | substitute _ y => exact ⟨_, by omega, script.insert y⟩
    | skip _ edit =>
      obtain ⟨k, few, rest⟩ := ih edit
      exact ⟨k + 1, by omega, rest.insert x⟩
  | delete x script ih =>
    obtain ⟨k, few, rest⟩ := ih edit
    exact ⟨k + 1, by omega, rest.delete x⟩
  | substitute x y script ih =>
    cases edit with
    | insert z => exact ⟨_, by omega, (script.substitute x y).insert z⟩
    | delete => exact ⟨_, by omega, script.delete x⟩
    | substitute _ z => exact ⟨_, by omega, script.substitute x z⟩
    | skip _ edit =>
      obtain ⟨k, few, rest⟩ := ih edit
      exact ⟨k + 1, by omega, rest.substitute x y⟩

theorem Edits.exists_script (edits : Edits n l r) : ∃ k ≤ n, Script l r k := by
  induction edits with
  | refl l => exact ⟨0, Nat.le_refl 0, .refl l⟩
  | step _ edit ih =>
    obtain ⟨k, few, script⟩ := ih
    obtain ⟨k', more, script⟩ := script.edit edit
    exact ⟨k', by omega, script⟩

theorem Edits.cons (x : α) (edits : Edits n l r) : Edits n (x :: l) (x :: r) := by
  induction edits with
  | refl l => exact .refl _
  | step _ edit ih => exact ih.step (edit.skip x)

theorem Script.edits (script : Script l r n) : Edits n l r := by
  induction script with
  | nil => exact .refl []
  | keep x _ ih => exact ih.cons x
  | insert x _ ih => exact ih.step (.insert x _)
  | delete x _ ih => exact (ih.cons x).step (.delete x _)
  | substitute x y _ ih => exact (ih.cons x).step (.substitute x y _)

theorem Edits.head (edit : Edit l m) (edits : Edits n m r) : Edits (n + 1) l r := by
  induction edits with
  | refl m => exact (Edits.refl l).step edit
  | step _ last ih => exact (ih edit).step last

/-! ## The ends of the lists -/

theorem Edit.append_left (start : List α) (edit : Edit l r) : Edit (start ++ l) (start ++ r) := by
  induction start with
  | nil => exact edit
  | cons x _ ih => exact ih.skip x

theorem Edit.append_right (rest : List α) (edit : Edit l r) : Edit (l ++ rest) (r ++ rest) := by
  induction edit with
  | insert x l => exact .insert x _
  | delete x l => exact .delete x _
  | substitute x y l => exact .substitute x y _
  | skip x _ ih => exact ih.skip x

theorem Edit.reverse (edit : Edit l r) : Edit l.reverse r.reverse := by
  induction edit with
  | insert x l => simpa using (Edit.insert x []).append_left l.reverse
  | delete x l => simpa using (Edit.delete x []).append_left l.reverse
  | substitute x y l => simpa using (Edit.substitute x y []).append_left l.reverse
  | skip x _ ih => simpa using ih.append_right [x]

theorem Edits.reverse (edits : Edits n l r) : Edits n l.reverse r.reverse := by
  induction edits with
  | refl l => exact .refl _
  | step _ edit ih => exact ih.step edit.reverse

theorem Edits.tail {x : α} (edits : Edits n (x :: l) (x :: r)) : ∃ k ≤ n, Edits k l r := by
  obtain ⟨k, few, script⟩ := edits.exists_script
  cases script with
  | keep _ script => exact ⟨k, few, script.edits⟩
  | insert _ script => exact ⟨_, few, Edits.head (.insert x l) script.edits⟩
  | delete _ script => exact ⟨_, few, script.edits.step (.delete x r)⟩
  | substitute _ _ script => exact ⟨_, by omega, script.edits⟩

/-! ## The least number -/

section
variable [DecidableEq α]

def distance : List α → List α → Nat
  | [], r => r.length
  | l, [] => l.length
  | x :: l, y :: r =>
    min (distance l (y :: r) + 1) (min (distance (x :: l) r + 1)
      (distance l r + if x = y then 0 else 1))

@[simp] theorem distance_nil_left (r : List α) : distance [] r = r.length := by rw [distance]

@[simp] theorem distance_nil_right (l : List α) : distance l [] = l.length := by
  cases l <;> simp [distance]

theorem distance_insert_le (l r : List α) (y : α) : distance l (y :: r) ≤ distance l r + 1 := by
  cases l with
  | nil => simp
  | cons x l =>
    rw [distance]
    exact (min_le_right _ _).trans (min_le_left _ _)

theorem distance_delete_le (l r : List α) (x : α) : distance (x :: l) r ≤ distance l r + 1 := by
  cases r with
  | nil => simp
  | cons y r =>
    rw [distance]
    exact min_le_left _ _

theorem Script.distance_le (script : Script l r n) : distance l r ≤ n := by
  induction script with
  | nil => simp
  | keep x _ ih =>
    rw [distance]
    exact ((min_le_right _ _).trans (min_le_right _ _)).trans (by simpa using ih)
  | insert x _ ih => exact (distance_insert_le _ _ x).trans (by omega)
  | delete x _ ih => exact (distance_delete_le _ _ x).trans (by omega)
  | substitute x y _ ih =>
    rw [distance]
    exact ((min_le_right _ _).trans (min_le_right _ _)).trans (by split <;> omega)

theorem script_distance (l r : List α) : Script l r (distance l r) := by
  induction l generalizing r with
  | nil =>
    induction r with
    | nil => simpa using Script.nil
    | cons y r ih => simpa using ih.insert y
  | cons x l ihl =>
    induction r with
    | nil => simpa using (ihl []).delete x
    | cons y r ihr =>
      rw [distance]
      -- The least of the three is one of them.
      rcases min_choice (distance l (y :: r) + 1)
        (min (distance (x :: l) r + 1) (distance l r + if x = y then 0 else 1))
        with least | least <;> rw [least]
      · exact (ihl (y :: r)).delete x
      · rcases min_choice (distance (x :: l) r + 1) (distance l r + if x = y then 0 else 1) with
            least | least <;>
          rw [least]
        · exact ihr.insert y
        · split
          · rename_i same
            exact same ▸ (ihl r).keep x
          · exact (ihl r).substitute x y

theorem isLeast_distance (l r : List α) : IsLeast {n | Edits n l r} (distance l r) := by
  refine ⟨(script_distance l r).edits, fun n edits => ?_⟩
  obtain ⟨k, few, script⟩ := Edits.exists_script edits
  exact script.distance_le.trans few

theorem distance_reverse (l r : List α) : distance l.reverse r.reverse = distance l r := by
  refine Nat.le_antisymm ((isLeast_distance _ _).2 (isLeast_distance l r).1.reverse)
    ((isLeast_distance l r).2 ?_)
  simpa using (isLeast_distance l.reverse r.reverse).1.reverse

theorem distance_cons (x : α) (l r : List α) : distance (x :: l) (x :: r) = distance l r := by
  refine Nat.le_antisymm ((isLeast_distance _ _).2 ((isLeast_distance l r).1.cons x)) ?_
  obtain ⟨k, few, edits⟩ := (isLeast_distance (x :: l) (x :: r)).1.tail
  exact ((isLeast_distance l r).2 edits).trans few

theorem distance_append_left (start l r : List α) : distance (start ++ l)
    (start ++ r) = distance l r := by
  induction start with
  | nil => rfl
  | cons x _ ih => rw [List.cons_append, List.cons_append, distance_cons, ih]

theorem distance_append_right (l r rest : List α) : distance (l ++ rest)
    (r ++ rest) = distance l r := by
  rw [← distance_reverse, List.reverse_append, List.reverse_append, distance_append_left,
    distance_reverse]

end

end Scribe.EditDistance
