import Scribe.Data.Attempt
import Scribe.Data.GoText
import Mathlib.Algebra.Order.Ring.Nat

/-! What the repositories share: errors, the clock, column values and transactions.

A repository call ends with a value or an error and leaves the tables in some
state. A transaction that ends with an error is rolled back. A statement outside
a transaction keeps its effect even when the call then reports an error, so the
state after such a call is stated separately from its answer.
-/

set_option autoImplicit false

namespace Scribe.Store

open Attempt

inductive StoreError where
  | noRows
  | annotationRevisionConflict
  | externalRequestMismatch
  | annotationMirrorLease
  | resourceCleanupLease
  | message (text : String)
  | wrapped (context : String) (cause : StoreError)
  deriving DecidableEq, Repr

def within {α : Type} (context : String) (result : Except StoreError α) : Except StoreError α :=
  result.mapError (.wrapped context)

@[simp] theorem mapError_ok_iff {α : Type} {report : StoreError → StoreError}
    {result : Except StoreError α} {value : α} :
    result.mapError report = .ok value ↔ result = .ok value := by
  cases result with
  | error cause => simp [Except.mapError]
  | ok found => simp [Except.mapError]

@[simp] theorem within_ok_iff {α : Type} {context : String}
    {result : Except StoreError α} {value : α} :
    within context result = .ok value ↔ result = .ok value :=
  mapError_ok_iff

abbrev Clock := Nat

def seconds (now : Clock) : Nat := now / 1000000

/-- A time as a `DATETIME` column of MySQL keeps it, which the managed deployment runs. The MariaDB
of the compose file cuts the fraction off instead of rounding it. -/
def datetime (time : Clock) : Nat := (time + 500000) / 1000000

def minutes (count : Nat) : Clock := count * 60000000

theorem seconds_mono {now later : Clock} (passed : now ≤ later) : seconds now ≤ seconds later :=
  Nat.div_le_div_right passed

def maxInt64 : Nat := 2 ^ 63 - 1

/-- Blank texts are stored as `NULL`, other texts without surrounding space. -/
def nullableString (text : String) : Option String :=
  if Go.trimSpace text = "" then none else some (Go.trimSpace text)

theorem nullableString_eq_some {text value : String} :
    nullableString text = some value ↔ Go.trimSpace text = value ∧ value ≠ "" := by
  rw [nullableString]
  by_cases blank : Go.trimSpace text = ""
  · simp only [blank, if_true, reduceCtorEq, false_iff, not_and, not_not]
    exact fun same => same.symm
  · simp only [blank, if_false, Option.some.injEq]
    exact ⟨fun same => ⟨same, same ▸ blank⟩, fun same => same.1⟩

/-- A lease owner as `newLeaseOwner` makes it: not blank and without surrounding space. -/
structure LeaseToken where
  text : String
  trimmed : Go.trimSpace text = text
  filled : text ≠ ""

theorem LeaseToken.nullable (token : LeaseToken) : nullableString token.text = some token.text :=
  nullableString_eq_some.mpr ⟨token.trimmed, token.filled⟩

section Calls

variable {σ α : Type}

abbrev Call (σ α : Type) := σ → Except StoreError α × σ

/-- Commit a body that succeeds and roll back one that fails. -/
def transaction (body : σ → Except StoreError (α × σ)) : Call σ α := fun state =>
  match body state with
  | .ok (value, next) => (.ok value, next)
  | .error cause => (.error cause, state)

/-- One statement outside a transaction, followed by a check of its row count. -/
def autocommit (statement : σ → Except StoreError (σ × Nat))
    (check : Nat → Except StoreError α) : Call σ α :=
  fun state =>
    match statement state with
    | .ok (next, affected) => (check affected, next)
    | .error cause => (.error cause, state)

theorem transaction_ok_iff {body : σ → Except StoreError (α × σ)} {state next : σ} {value : α} :
    transaction body state = (.ok value, next) ↔ body state = .ok (value, next) := by
  rw [transaction]
  cases ran : body state with
  | error cause => simp
  | ok outcome => simp [Prod.ext_iff]

theorem transaction_cases (body : σ → Except StoreError (α × σ)) (state : σ) :
    (∃ cause, transaction body state = (.error cause, state)) ∨
      ∃ value next, transaction body state = (.ok value, next) := by
  rw [transaction]
  cases body state with
  | error cause => exact .inl ⟨cause, rfl⟩
  | ok outcome => exact .inr ⟨outcome.1, outcome.2, rfl⟩

def requireOneAffected (affected : Nat) : Except StoreError Unit := refuse (affected ≠ 1) .noRows

@[simp] theorem requireOneAffected_ok_iff {affected : Nat} {value : Unit} :
    requireOneAffected affected = .ok value ↔ affected = 1 := by
  simp [requireOneAffected]

end Calls

end Scribe.Store
