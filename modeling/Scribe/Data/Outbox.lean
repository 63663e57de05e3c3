import Scribe.Data.Table

/-! Outboxes: rows of work that workers claim under a lease.

A row is pending, is being delivered by the worker that leased it, or has failed.
It is claimed when it is due, and again when its lease has run out. Writing a row
anew makes it pending and drops the lease, and it is then the row's next attempt
alone that keeps a second worker away from a delivery that is still under way.
Times are whole seconds.
-/

set_option autoImplicit false

namespace Scribe.Outbox

open List

inductive Status where
  | pending
  | processing
  | failed
  deriving DecidableEq, Repr

/-- A row is found by its key and fenced by its id, its version and the owner of its lease. -/
structure Row (κ β : Type) where
  key : κ
  id : Nat
  version : Nat
  body : β
  status : Status
  attemptCount : Nat
  maxAttempts : Nat
  nextAttemptAt : Nat
  leaseUntil : Option Nat
  lockedBy : Option String
  lastError : Option String
  updatedAt : Nat
  deriving DecidableEq

structure Ticket where
  id : Nat
  version : Nat
  owner : String
  deriving DecidableEq

section Rows

variable {κ β : Type}

def Row.due (now : Nat) (row : Row κ β) : Bool :=
  (row.status = .pending && row.nextAttemptAt ≤ now) ||
  (row.status = .processing && row.leaseUntil.any (· < now) && row.attemptCount < row.maxAttempts)

def Row.exhausted (now : Nat) (row : Row κ β) : Bool :=
  row.status = .processing && row.leaseUntil.any (· < now) && row.maxAttempts ≤ row.attemptCount

def Row.leasedTo (now leaseUntil : Nat) (owner : String) (row : Row κ β) : Row κ β :=
  { row with
    status := .processing
    attemptCount := row.attemptCount + 1
    leaseUntil := some leaseUntil
    lockedBy := some owner
    updatedAt := now }

def Row.heldBy (ticket : Ticket) (row : Row κ β) : Bool :=
  row.id = ticket.id && row.version = ticket.version && row.status = .processing && row.lockedBy =
    some ticket.owner

/-- The delivery columns of a row that is written anew while it may be under delivery. -/
def Row.reenqueued (now earliest : Nat) (row : Row κ β) : Row κ β :=
  { row with
    status := .pending
    attemptCount := 0
    nextAttemptAt := max earliest (row.leaseUntil.getD now)
    leaseUntil := none
    lockedBy := none
    lastError := none
    updatedAt := now }

variable [DecidableEq κ] [DecidableEq β]

/-- The due row that has waited longest, of those no other transaction has locked. -/
def oldestDue (now : Nat) (locked : κ → Bool) (rows : List (Row κ β)) : Option (Row κ β) :=
  let candidates := rows.filter fun row => row.due now && !locked row.key
  candidates.find? fun row => candidates.all fun other =>
    row.nextAttemptAt < other.nextAttemptAt ||
      (row.nextAttemptAt = other.nextAttemptAt && row.updatedAt ≤ other.updatedAt)

/-- The row that was selected for a claim, if it is still as it was read. -/
def Row.stillDue (now : Nat) (selected row : Row κ β) : Bool :=
  row.id = selected.id && row.version = selected.version && row.due now

/-- Recover the rows whose last lease has run out, then lease the oldest due row. -/
def claim (now leaseUntil : Nat) (owner : String) (locked : κ → Bool) (recover : Row κ β → Row κ β)
    (rows : List (Row κ β)) : Option (Row κ β) × List (Row κ β) :=
  let recovered := Table.update (Row.exhausted now) recover rows
  match oldestDue now locked recovered with
  | none => (none, recovered)
  | some row =>
    if Table.affected (row.stillDue now) (Row.leasedTo now leaseUntil owner) recovered = 1 then
      (some row, Table.update (row.stillDue now) (Row.leasedTo now leaseUntil owner) recovered)
    else (none, recovered)

def rowOf (key : κ) (rows : List (Row κ β)) : Option (Row κ β) := rows.find? fun row => row.key = key

def upsert (key : κ) (revise : Row κ β → Row κ β) (fresh : Row κ β) (rows : List (Row κ β)) :
    List (Row κ β) :=
  if (rowOf key rows).isSome then Table.update (fun row => row.key = key) revise rows
  else rows ++ [fresh]

end Rows

/-! ### One key of an outbox -/

section RowOf

variable {κ β : Type} [DecidableEq κ] {rows : List (Row κ β)} {key : κ}

theorem rowOf_some {row : Row κ β} (found : rowOf key rows = some row) : row ∈ rows ∧ row.key = key :=
  ⟨mem_of_find?_eq_some found, by simpa using find?_some found⟩

theorem rowOf_eq_some (distinct : (rows.map (·.key)).Nodup) {row : Row κ β} (member : row ∈ rows)
    (isKey : row.key = key) : rowOf key rows = some row :=
  (Table.find?_key distinct).mpr ⟨member, isKey⟩

theorem rowOf_update {selected : Row κ β → Bool} {assign : Row κ β → Row κ β}
    (keeps : ∀ row, (assign row).key = row.key) :
    rowOf key (Table.update selected assign rows) =
      (rowOf key rows).map fun row => if selected row then assign row else row :=
  Table.find?_update keeps

theorem rowOf_delete {selected : Row κ β → Bool} (distinct : (rows.map (·.key)).Nodup) :
    rowOf key (Table.delete selected rows) = (rowOf key rows).filter fun row => !selected row := by
  cases found : rowOf key rows with
  | none =>
    refine find?_eq_none.mpr fun row member => ?_
    exact find?_eq_none.mp found row (Table.mem_delete.mp member).1
  | some row =>
    obtain ⟨member, isKey⟩ := rowOf_some found
    have left : ((Table.delete selected rows).map (·.key)).Nodup :=
      distinct.sublist (filter_sublist.map _)
    cases gone : selected row with
    | false =>
      simp only [Option.filter, gone, Bool.not_false, if_true]
      exact rowOf_eq_some left (Table.mem_delete.mpr ⟨member, gone⟩) isKey
    | true =>
      simp only [Option.filter, gone, Bool.not_true, Bool.false_eq_true, if_false]
      refine find?_eq_none.mpr fun other present => ?_
      obtain ⟨listed, stays⟩ := Table.mem_delete.mp present
      intro same
      rw [inj_on_of_nodup_map distinct listed member (by simpa [isKey] using same), gone] at stays
      cases stays

theorem rowOf_upsert_some {revise : Row κ β → Row κ β} {fresh row : Row κ β}
    (keeps : ∀ row, (revise row).key = row.key) (found : rowOf key rows = some row) :
    rowOf key (upsert key revise fresh rows) = some (revise row) := by
  rw [upsert, found, Option.isSome_some, if_pos rfl, rowOf_update keeps, found]
  simp [(rowOf_some found).2]

theorem rowOf_upsert_none {revise : Row κ β → Row κ β} {fresh : Row κ β} (isKey : fresh.key = key)
    (missing : rowOf key rows = none) : rowOf key (upsert key revise fresh rows) = some fresh := by
  rw [upsert, missing, if_neg (by simp), rowOf, find?_append]
  have : rows.find? (fun row => row.key = key) = none := missing
  rw [this]
  simp [isKey]

theorem rowOf_upsert_ne {other : κ} {revise : Row κ β → Row κ β} {fresh : Row κ β}
    (apart : other ≠ key) (keeps : ∀ row, (revise row).key = row.key) (isKey : fresh.key = other) :
    rowOf key (upsert other revise fresh rows) = rowOf key rows := by
  rw [upsert]
  split
  · rw [rowOf_update keeps]
    cases found : rowOf key rows with
    | none => rfl
    | some row =>
      have : row.key ≠ other := by
        rw [(rowOf_some found).2]
        exact apart.symm
      simp [this]
  · rw [rowOf, find?_append]
    simp [rowOf, isKey, apart]

theorem forall_upsert {holds : Row κ β → Prop} {revise : Row κ β → Row κ β} {fresh : Row κ β}
    (all : ∀ row ∈ rows, holds row) (revises : ∀ row, holds row → holds (revise row))
    (inserts : holds fresh) : ∀ row ∈ upsert key revise fresh rows, holds row := by
  rw [upsert]
  split
  · exact Table.forall_update all fun row member _ => revises row (all row member)
  · intro row present
    rcases mem_append.mp present with member | new
    · exact all row member
    · rw [mem_singleton.mp new]
      exact inserts

end RowOf

/-- No two rows share a key or an id. -/
structure Distinct {κ β : Type} (rows : List (Row κ β)) : Prop where
  keys : (rows.map (·.key)).Nodup
  ids : (rows.map (·.id)).Nodup

def Keeps {κ β : Type} (assign : Row κ β → Row κ β) : Prop :=
  ∀ row, (assign row).key = row.key ∧ (assign row).id = row.id

namespace Distinct

variable {κ β : Type} {rows : List (Row κ β)}

theorem nil : Distinct ([] : List (Row κ β)) := ⟨nodup_nil, nodup_nil⟩

theorem delete (distinct : Distinct rows) (selected : Row κ β → Bool) :
    Distinct (Table.delete selected rows) :=
  ⟨distinct.keys.sublist (filter_sublist.map _), distinct.ids.sublist (filter_sublist.map _)⟩

theorem update (distinct : Distinct rows) {selected : Row κ β → Bool} {assign : Row κ β → Row κ β}
    (keeps : Keeps assign) :
    Distinct (Table.update selected assign rows) := by
  constructor
  case keys => rw [Table.map_key_update _ fun row _ => (keeps row).1]; exact distinct.keys
  case ids => rw [Table.map_key_update _ fun row _ => (keeps row).2]; exact distinct.ids

variable [DecidableEq κ]

theorem upsert (distinct : Distinct rows) {key : κ} {revise : Row κ β → Row κ β} {fresh : Row κ β}
    (keeps : Keeps revise) (isKey : fresh.key = key)
    (unused : rowOf key rows = none → ∀ row ∈ rows, row.id ≠ fresh.id) :
    Distinct (Outbox.upsert key revise fresh rows) := by
  rw [Outbox.upsert]
  split
  case isTrue => exact distinct.update keeps
  case isFalse absent =>
    have missing := Option.not_isSome_iff_eq_none.mp absent
    constructor
    case keys =>
      simp only [map_append, map_cons, map_nil, nodup_append]
      refine ⟨distinct.keys, nodup_singleton _, ?_⟩
      intro old present new isNew same
      obtain ⟨row, member, rfl⟩ := mem_map.mp present
      rw [mem_singleton.mp isNew, isKey] at same
      exact find?_eq_none.mp missing row member (by simpa using same)
    case ids =>
      simp only [map_append, map_cons, map_nil, nodup_append]
      refine ⟨distinct.ids, nodup_singleton _, ?_⟩
      intro old present new isNew same
      obtain ⟨row, member, rfl⟩ := mem_map.mp present
      rw [mem_singleton.mp isNew] at same
      exact unused missing row member same

end Distinct

/-! ### Claims -/

section Claim

variable {κ β : Type} [DecidableEq κ] [DecidableEq β] {rows : List (Row κ β)} {now leaseUntil : Nat}
  {owner : String} {locked : κ → Bool} {recover : Row κ β → Row κ β}

omit [DecidableEq κ] [DecidableEq β] in
theorem oldestDue_some {row : Row κ β} (found : oldestDue now locked rows = some row) :
    row ∈ rows ∧ row.due now = true := by
  obtain ⟨member, here⟩ := mem_filter.mp (mem_of_find?_eq_some found)
  simp only [Bool.and_eq_true] at here
  exact ⟨member, here.1⟩

/-- What a claim does: it recovers rows and, when it answers one, leases it. -/
theorem claim_cases (rows : List (Row κ β)) (now leaseUntil : Nat) (owner : String) (locked : κ → Bool)
    (recover : Row κ β → Row κ β) :
    claim now leaseUntil owner locked recover rows =
      (none, Table.update (Row.exhausted now) recover rows) ∨
    ∃ row ∈ Table.update (Row.exhausted now) recover rows, row.due now = true ∧
      claim now leaseUntil owner locked recover rows =
        (some row, Table.update (row.stillDue now) (Row.leasedTo now leaseUntil owner)
          (Table.update (Row.exhausted now) recover rows)) := by
  simp only [claim]
  split
  case h_1 => exact .inl rfl
  case h_2 row found =>
    split
    · exact .inr ⟨row, (oldestDue_some found).1, (oldestDue_some found).2, rfl⟩
    · exact .inl rfl

/-- The rule for claims: what holds of every row, of a recovered row and of a leased row. -/
theorem forall_claim {holds : Row κ β → Prop} (all : ∀ row ∈ rows, holds row)
    (recovers : ∀ row, holds row → holds (recover row))
    (leases : ∀ row, holds row → holds (row.leasedTo now leaseUntil owner)) :
    ∀ row ∈ (claim now leaseUntil owner locked recover rows).2, holds row := by
  have recovered : ∀ row ∈ Table.update (Row.exhausted now) recover rows, holds row :=
    Table.forall_update all fun row member _ => recovers row (all row member)
  rcases claim_cases rows now leaseUntil owner locked recover with same | ⟨row, _, _, same⟩
  · rw [same]
    exact recovered
  · rw [same]
    exact Table.forall_update recovered fun row member _ => leases row (recovered row member)

theorem Distinct.claim (distinct : Distinct rows) (keeps : Keeps recover) :
    Distinct (Outbox.claim now leaseUntil owner locked recover rows).2 := by
  have recovered : Distinct (Table.update (Row.exhausted now) recover rows) := distinct.update keeps
  rcases claim_cases rows now leaseUntil owner locked recover with same | ⟨row, _, _, same⟩
  · rw [same]
    exact recovered
  · rw [same]
    exact recovered.update fun _ => ⟨rfl, rfl⟩

theorem rowOf_claim_other (distinct : Distinct rows) {key : κ} (keeps : Keeps recover)
    (other : ∀ row, (claim now leaseUntil owner locked recover rows).1 = some row → row.key ≠ key) :
    rowOf key (claim now leaseUntil owner locked recover rows).2 =
      (rowOf key rows).map fun row => if row.exhausted now then recover row else row := by
  have recovered : rowOf key (Table.update (Row.exhausted now) recover rows) =
      (rowOf key rows).map fun row => if row.exhausted now then recover row else row :=
    rowOf_update fun row => (keeps row).1
  rcases claim_cases rows now leaseUntil owner locked recover with same | ⟨row, member, _, same⟩
  · rw [same]
    exact recovered
  · have apart := other row (by rw [same])
    rw [same, rowOf_update (by exact fun _ => rfl), recovered.symm]
    cases found : rowOf key (Table.update (Row.exhausted now) recover rows) with
    | none => rfl
    | some mine =>
      obtain ⟨listed, isKey⟩ := rowOf_some found
      -- the claimed row has another id, because it has another key
      have skipped : row.stillDue now mine = false := by
        by_contra chosen
        simp only [Row.stillDue, Bool.not_eq_false, Bool.and_eq_true, decide_eq_true_eq] at chosen
        have := inj_on_of_nodup_map (distinct.update keeps).ids listed member chosen.1.1
        exact apart (this ▸ isKey)
      simp [skipped]

section
variable {row : Row κ β} (distinct : Distinct rows)
  (keeps : Keeps recover)
include distinct keeps

theorem rowOf_claim (claimed : (claim now leaseUntil owner locked recover rows).1 = some row) :
    row.due now = true ∧
    rowOf row.key (Table.update (Row.exhausted now) recover rows) = some row ∧
    rowOf row.key (claim now leaseUntil owner locked recover rows).2 =
      some (row.leasedTo now leaseUntil owner) := by
  rcases claim_cases rows now leaseUntil owner locked recover with same | ⟨found, member, isDue, same⟩
  · rw [same] at claimed
    cases claimed
  · rw [same] at claimed ⊢
    obtain rfl := Option.some.inj claimed
    have mine := rowOf_eq_some (distinct.update keeps).keys member rfl
    refine ⟨isDue, mine, ?_⟩
    have chosen : found.stillDue now found = true := by simp [Row.stillDue, isDue]
    rw [rowOf_update (by exact fun _ => rfl), mine, Option.map_some, if_pos chosen]

theorem due_of_claim (spent : ∀ row, (recover row).due now = false)
    (claimed : (claim now leaseUntil owner locked recover rows).1 = some row) :
    row.due now = true ∧ rowOf row.key rows = some row := by
  obtain ⟨isDue, recovered, _⟩ := rowOf_claim distinct keeps claimed
  rw [rowOf_update fun row => (keeps row).1] at recovered
  obtain ⟨present, found, same⟩ := Option.map_eq_some_iff.mp recovered
  split at same
  · rw [← same, spent] at isDue
    cases isDue
  · rw [same] at found
    exact ⟨isDue, found⟩

end

omit [DecidableEq β] in
theorem oldestDue_alone (keys : (rows.map (·.key)).Nodup) {row : Row κ β} (member : row ∈ rows)
    (isDue : row.due now = true) : oldestDue now (fun key => key ≠ row.key) rows = some row := by
  have only : ∀ other ∈ rows.filter fun other => other.due now && !decide (other.key ≠ row.key),
      other = row := by
    intro other candidate
    obtain ⟨listed, here⟩ := mem_filter.mp candidate
    simp only [Bool.and_eq_true, Bool.not_eq_true', decide_eq_false_iff_not, not_not] at here
    exact inj_on_of_nodup_map keys listed member here.2
  cases found : oldestDue now (fun key => key ≠ row.key) rows with
  | some other => rw [only other (mem_of_find?_eq_some found)]
  | none =>
    have candidate : row ∈ rows.filter fun other => other.due now && !decide (other.key ≠ row.key) :=
      mem_filter.mpr ⟨member, by simp [isDue]⟩
    refine absurd (all_eq_true.mpr fun other listed => ?_) (find?_eq_none.mp found row candidate)
    rw [only other listed]
    simp

theorem claim_of_due (distinct : Distinct rows) (keeps : Keeps recover) {row : Row κ β}
    (found : rowOf row.key rows = some row) (isDue : row.due now = true) :
    (claim now leaseUntil owner (fun key => key ≠ row.key) recover rows).1 = some row := by
  have fresh : row.exhausted now = false := by
    by_contra spent
    simp only [Row.exhausted, Bool.not_eq_false, Bool.and_eq_true, decide_eq_true_eq] at spent
    simp only [Row.due, Bool.or_eq_true, Bool.and_eq_true, decide_eq_true_eq, spent.1.1] at isDue
    rcases isDue with ⟨pending, _⟩ | ⟨_, left⟩
    · cases pending
    · omega
  have mine : rowOf row.key (Table.update (Row.exhausted now) recover rows) = some row := by
    rw [rowOf_update fun row => (keeps row).1, found]
    simp [fresh]
  have recovered : Distinct (Table.update (Row.exhausted now) recover rows) := distinct.update keeps
  rw [claim, oldestDue_alone recovered.keys (rowOf_some mine).1 isDue]
  have one : Table.affected (row.stillDue now) (Row.leasedTo now leaseUntil owner)
      (Table.update (Row.exhausted now) recover rows) = 1 := by
    refine (Table.affected_eq_one_iff recovered.ids ?_).mpr ⟨row, (rowOf_some mine).1, ?_, ?_⟩
    · intro left _ right _ isLeft isRight
      simp only [Row.stillDue, Bool.and_eq_true, decide_eq_true_eq] at isLeft isRight
      exact isLeft.1.1.trans isRight.1.1.symm
    · simp [Row.stillDue, isDue]
    · intro same
      have := congrArg Row.attemptCount same
      simp [Row.leasedTo] at this
  simp [one]

/-- Some claim takes the row of a key exactly when the row is due. -/
theorem claimed_iff (distinct : Distinct rows) (keeps : Keeps recover)
    (spent : ∀ row, (recover row).due now = false) {key : κ} :
    (∃ locked row, (claim now leaseUntil owner locked recover rows).1 = some row ∧ row.key = key) ↔
      ∃ row, rowOf key rows = some row ∧ row.due now = true := by
  constructor
  · rintro ⟨locked, row, claimed, rfl⟩
    obtain ⟨isDue, found⟩ := due_of_claim distinct keeps spent claimed
    exact ⟨row, found, isDue⟩
  · rintro ⟨row, found, isDue⟩
    obtain rfl := (rowOf_some found).2
    exact ⟨_, row, claim_of_due distinct keeps found isDue, rfl⟩

end Claim

/-! ### The horizon of a delivery -/

/-- A delivery under way: the ticket it was claimed with, the end of its lease, how often its row
was written anew since, and the earliest time the last of these writes allowed by itself. -/
structure Flight where
  ticket : Ticket
  horizon : Nat
  reenqueued : Nat
  notBefore : Nat

def Flight.begin (ticket : Ticket) (horizon : Nat) : Flight := ⟨ticket, horizon, 0, 0⟩

def Flight.again (now earliest : Nat) (flight : Flight) : Flight :=
  { flight with reenqueued := flight.reenqueued + 1, notBefore := max earliest now }

def Flight.Seen {κ β : Type} (flight : Flight) (row : Row κ β) : Prop :=
  (flight.reenqueued = 0 ∧ row.heldBy flight.ticket = true ∧ row.leaseUntil = some flight.horizon) ∨
  (0 < flight.reenqueued ∧ row.status = .pending ∧ row.leaseUntil = none ∧
    row.nextAttemptAt = max flight.notBefore (if flight.reenqueued = 1 then flight.horizon else 0))

def Flight.Guards {κ β : Type} (now : Nat) (flight : Flight) (row : Option (Row κ β)) : Prop :=
  now < flight.horizon → ∃ present, row = some present ∧ flight.Seen present

section Horizon

variable {κ β : Type} {now : Nat} {flight : Flight} {row : Option (Row κ β)}

theorem Flight.Guards.later {time : Nat} (guards : flight.Guards now row) (passed : now ≤ time) :
    flight.Guards time row :=
  fun before => guards (Nat.lt_of_le_of_lt passed before)

theorem Row.heldBy_iff {ticket : Ticket} {row : Row κ β} :
    row.heldBy ticket = true ↔ row.id = ticket.id ∧ row.version = ticket.version ∧
      row.status = .processing ∧
      row.lockedBy = some ticket.owner := by
  simp only [Row.heldBy, Bool.and_eq_true, decide_eq_true_eq, and_assoc]

theorem Flight.Guards.recovered {recover : Row κ β → Row κ β} (guards : flight.Guards now row) :
    flight.Guards now (row.map fun row => if row.exhausted now then recover row else row) := by
  intro before
  obtain ⟨present, rfl, seen⟩ := guards before
  refine ⟨present, ?_, seen⟩
  have unspent : present.exhausted now = false := by
    rcases seen with ⟨_, _, lease⟩ | ⟨_, pending, _, _⟩
    · simp only [Row.exhausted, lease, Option.any_some, Bool.and_eq_false_iff, decide_eq_false_iff_not]
      exact .inl (.inr (by omega))
    · simp [Row.exhausted, pending]
  simp [unspent]

theorem Flight.Guards.reenqueued {earliest : Nat} {present after : Row κ β}
    (guards : flight.Guards now (some present)) (status : after.status = .pending)
    (lease : after.leaseUntil = none)
    (next : after.nextAttemptAt = max earliest (present.leaseUntil.getD now)) :
    (flight.again now earliest).Guards now (some after) := by
  intro before
  obtain ⟨same, isSame, seen⟩ := guards before
  obtain rfl := Option.some.inj isSame
  have horizon : now < flight.horizon := before
  refine ⟨after, rfl, .inr ⟨Nat.succ_pos _, status, lease, ?_⟩⟩
  rw [next]
  rcases seen with ⟨none, _, leased⟩ | ⟨some, _, free, _⟩
  · simp only [Flight.again, none, leased, Option.getD_some, if_true]
    omega
  · have more : (flight.again now earliest).reenqueued ≠ 1 := Nat.ne_of_gt (Nat.succ_lt_succ some)
    rw [if_neg more, free]
    simp [Flight.again]

theorem Flight.Guards.begin {present : Row κ β} {leaseUntil : Nat} {owner : String} :
    (Flight.begin ⟨present.id, present.version, owner⟩ leaseUntil).Guards now
      (some (present.leasedTo now leaseUntil owner)) :=
  fun _ => ⟨_, rfl, .inl ⟨rfl, by simp [Row.heldBy, Row.leasedTo, Flight.begin], rfl⟩⟩

theorem Flight.Guards.held {ticket : Ticket} {present : Row κ β}
    (guards : flight.Guards now (some present)) (before : now < flight.horizon)
    (held : present.heldBy ticket = true) : ticket = flight.ticket := by
  obtain ⟨same, isSame, seen⟩ := guards before
  obtain rfl := Option.some.inj isSame
  rcases seen with ⟨_, mine, _⟩ | ⟨_, pending, _, _⟩
  · rw [Row.heldBy_iff] at held mine
    cases ticket
    cases own : flight.ticket
    simp_all
  · rw [Row.heldBy_iff, pending] at held
    cases held.2.2.1

theorem Flight.Guards.spared [DecidableEq κ] {rows : List (Row κ β)} {key : κ}
    (distinct : Distinct rows) {ticket : Ticket} {selected : Row κ β → Bool}
    (holds : ∀ row, selected row = true → row.heldBy ticket = true)
    (guards : flight.Guards now (rowOf key rows))
    (missed : ticket = flight.ticket → rows.countP selected ≠ 1) (before : now < flight.horizon)
    {present : Row κ β} (found : rowOf key rows = some present) : selected present = false := by
  by_contra chosen
  have chosen : selected present = true := by simpa using chosen
  rw [found] at guards
  refine missed (guards.held before (holds present chosen)) ?_
  refine (Table.countP_eq_one_iff distinct.ids ?_).mpr ⟨present, (rowOf_some found).1, chosen⟩
  intro left _ right _ isLeft isRight
  exact (Row.heldBy_iff.mp (holds left isLeft)).1.trans
    (Row.heldBy_iff.mp (holds right isRight)).1.symm

/-- No claim takes the row before the horizon exactly when it was written anew at most once, or the
last write put its next attempt behind the horizon by itself. -/
theorem Flight.Guards.waits_iff (guards : flight.Guards now row) :
    (∀ time, now ≤ time → time < flight.horizon → ∀ present, row = some present →
      present.due time = false) ↔
      flight.reenqueued ≤ 1 ∨ flight.horizon ≤ flight.notBefore ∨ flight.horizon ≤ now := by
  by_cases passed : flight.horizon ≤ now
  · exact iff_of_true (fun time after before =>
      absurd (Nat.lt_of_le_of_lt after before) (Nat.not_lt.mpr passed))
      (.inr (.inr passed))
  obtain ⟨present, rfl, seen⟩ := guards (Nat.lt_of_not_le passed)
  rcases seen with ⟨none, held, lease⟩ | ⟨some, pending, free, next⟩
  · refine iff_of_true (fun time _ before other same => ?_) (.inl (by omega))
    obtain rfl := Option.some.inj same
    have notExpired : ¬flight.horizon < time := by omega
    simp [Row.due, (Row.heldBy_iff.mp held).2.2.1, lease, notExpired]
  · have due : ∀ time, present.due time = decide (present.nextAttemptAt ≤ time) := by
      intro time
      simp [Row.due, pending]
    constructor
    · intro waits
      by_contra few
      rw [if_neg (by omega)] at next
      -- the first moment that is both now or later and not before the next attempt
      have taken := waits (max now flight.notBefore) (by omega) (by omega) present rfl
      rw [due, next, decide_eq_false_iff_not] at taken
      omega
    · intro few time _ before other same
      obtain rfl := Option.some.inj same
      rw [due, next]
      have : ¬max flight.notBefore (if flight.reenqueued = 1 then flight.horizon else 0) ≤ time := by
        split <;> omega
      simpa using this

end Horizon

/-! ### A key and the delivery of it that is under way -/

def Flight.settled (finished : Bool) (ticket : Ticket) (flight : Option Flight) : Option Flight :=
  if finished && flight.any (·.ticket = ticket) then none else flight

theorem Flight.settled_some {finished : Bool} {ticket : Ticket} {flight : Option Flight}
    {current : Flight} (left : Flight.settled finished ticket flight = some current) :
    flight = some current ∧ (ticket = current.ticket → finished = false) := by
  rw [Flight.settled] at left
  split at left
  case isTrue => cases left
  case isFalse kept =>
    refine ⟨left, fun same => ?_⟩
    simpa [left, same] using kept

structure Watched {κ β : Type} [DecidableEq κ] (key : κ) (now : Nat) (rows : List (Row κ β))
    (flight : Option Flight) : Prop where
  distinct : Distinct rows
  guards : ∀ current, flight = some current → current.Guards now (rowOf key rows)

namespace Watched

variable {κ β : Type} [DecidableEq κ] {key : κ} {now : Nat} {rows : List (Row κ β)}
  {flight : Option Flight}

theorem idle (distinct : Distinct rows) : Watched key now rows none :=
  ⟨distinct, fun _ other => nomatch other⟩

section
variable (watched : Watched key now rows flight)
include watched

theorem later {time : Nat} (passed : now ≤ time) : Watched key time rows flight :=
  ⟨watched.distinct, fun current isFlight => (watched.guards current isFlight).later passed⟩

/-- A worker that reports with a ticket writes the row it holds and nobody else's. -/
theorem reported {ticket : Ticket} {selected : Row κ β → Bool} {after : List (Row κ β)}
    (holds : ∀ row, selected row = true → row.heldBy ticket = true) (distinct : Distinct after)
    (stays : ∀ row, rowOf key rows = some row → selected row = false → rowOf key after = some row) :
    Watched key now after (Flight.settled (rows.countP selected = 1) ticket flight) := by
  refine ⟨distinct, fun current left before => ?_⟩
  obtain ⟨isFlight, missed⟩ := Flight.settled_some left
  have guards := watched.guards current isFlight
  obtain ⟨present, found, seen⟩ := guards before
  have spared :=
    guards.spared watched.distinct holds (fun same => by simpa using missed same) before found
  exact ⟨present, stays present found spared, seen⟩

theorem deleted {ticket : Ticket} {selected : Row κ β → Bool}
    (holds : ∀ row, selected row = true → row.heldBy ticket = true) :
    Watched key now (Table.delete selected rows)
    (Flight.settled (rows.countP selected = 1) ticket flight) := by
  refine watched.reported holds (watched.distinct.delete selected) fun row found spared => ?_
  rw [rowOf_delete watched.distinct.keys, found]
  simp [spared]

theorem updated {ticket : Ticket} {selected : Row κ β → Bool} {assign : Row κ β → Row κ β}
    (holds : ∀ row, selected row = true → row.heldBy ticket = true) (keeps : Keeps assign) :
    Watched key now (Table.update selected assign rows)
    (Flight.settled (rows.countP selected = 1) ticket flight) := by
  refine watched.reported holds (watched.distinct.update keeps) fun row found spared => ?_
  rw [rowOf_update fun row => (keeps row).1, found]
  simp [spared]

theorem rewritten {selected : Row κ β → Bool} {assign : Row κ β → Row κ β} (keeps : Keeps assign)
    (seen : ∀ current : Flight, ∀ row, current.Seen row → current.Seen (assign row)) :
    Watched key now (Table.update selected assign rows) flight := by
  refine ⟨watched.distinct.update keeps, fun current isFlight before => ?_⟩
  obtain ⟨present, found, here⟩ := watched.guards current isFlight before
  rw [rowOf_update fun row => (keeps row).1, found]
  refine ⟨_, rfl, ?_⟩
  dsimp only
  split
  · exact seen current present here
  · exact here

theorem upserted_other {other : κ} {revise : Row κ β → Row κ β} {fresh : Row κ β}
    (apart : other ≠ key) (keeps : Keeps revise)
    (isKey : fresh.key = other) (unused : rowOf other rows = none → ∀ row ∈ rows, row.id ≠ fresh.id) :
    Watched key now (upsert other revise fresh rows) flight := by
  refine ⟨watched.distinct.upsert keeps isKey unused, fun current isFlight => ?_⟩
  rw [rowOf_upsert_ne apart (fun row => (keeps row).1) isKey]
  exact watched.guards current isFlight

theorem upserted {revise : Row κ β → Row κ β} {fresh : Row κ β} {earliest : Nat}
    (keeps : Keeps revise) (isKey : fresh.key = key)
    (unused : rowOf key rows = none → ∀ row ∈ rows, row.id ≠ fresh.id)
    (anew : ∀ row, rowOf key rows = some row → (revise row).status = .pending ∧
      (revise row).leaseUntil = none ∧
      (revise row).nextAttemptAt = max earliest (row.leaseUntil.getD now)) :
    Watched key now (upsert key revise fresh rows) (flight.map (Flight.again now earliest)) := by
  refine ⟨watched.distinct.upsert keeps isKey unused, fun current isFlight before => ?_⟩
  obtain ⟨earlier, isEarlier, rfl⟩ := Option.map_eq_some_iff.mp isFlight
  have guards := watched.guards earlier isEarlier
  obtain ⟨present, found, -⟩ := guards before
  obtain ⟨status, lease, next⟩ := anew present found
  rw [found] at guards
  rw [rowOf_upsert_some (fun row => (keeps row).1) found]
  exact guards.reenqueued status lease next before

end

/-- A claim of the key begins a delivery of it, and any other claim is not concerned with it. -/
theorem claim [DecidableEq β] {recover : Row κ β → Row κ β} (watched : Watched key now rows flight)
    (keeps : Keeps recover) (leaseUntil : Nat) (owner : String) (locked : κ → Bool) :
    Watched key now (Outbox.claim now leaseUntil owner locked recover rows).2
      (match (Outbox.claim now leaseUntil owner locked recover rows).1 with
        | some row => if row.key = key then
            some (Flight.begin ⟨row.id, row.version, owner⟩ leaseUntil) else flight
        | none => flight) := by
  refine ⟨watched.distinct.claim keeps, fun current isFlight => ?_⟩
  by_cases mine : ∃ row, (Outbox.claim now leaseUntil owner locked recover rows).1 = some row ∧
    row.key = key
  · obtain ⟨row, answer, isKey⟩ := mine
    rw [answer] at isFlight
    obtain rfl := Option.some.inj ((if_pos isKey).symm.trans isFlight)
    rw [← isKey, (rowOf_claim watched.distinct keeps answer).2.2]
    exact Flight.Guards.begin
  · have others : ∀ row, (Outbox.claim now leaseUntil owner locked recover rows).1 = some row →
        row.key ≠ key :=
      fun row answer isKey => mine ⟨row, answer, isKey⟩
    rw [rowOf_claim_other watched.distinct keeps others]
    refine (watched.guards current ?_).recovered
    split at isFlight
    · rename_i row answer
      rwa [if_neg (others row answer)] at isFlight
    · exact isFlight

end Watched

end Scribe.Outbox
