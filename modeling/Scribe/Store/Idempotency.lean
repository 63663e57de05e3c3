import Scribe.Store.Requests

/-! A request is handed to one caller at a time, a bounded number of times, and
never again once it is completed.

The request of one key is followed through the calls of all callers, together with
how often it was acquired and who acquired it last.
-/

set_option autoImplicit false

namespace Scribe.Store

open Attempt List

theorem after_mono {now later : Clock} {time : Nat} (passed : now ≤ later)
    (expired : after now time = true) : after later time = true := by
  simp only [after, decide_eq_true_eq] at expired ⊢
  exact Nat.lt_of_lt_of_le expired passed

/-! ### What the calls do -/

variable {row : RequestRow}

section Calls

variable {now : Clock} {directory : Directory} {reservation : Reservation} {lockedBy : LeaseToken}
  {requests next : Requests} {answer : ExternalRequest × Bool} {key : RequestKey}

theorem selectExternalRequest_ok :
    selectExternalRequest key requests = .ok row ↔ requestOf key requests = some row := by
  rw [selectExternalRequest]
  cases requestOf key requests with
  | none => simp [throw, throwThe, MonadExceptOf.throw]
  | some found => simp [pure, Except.pure]

theorem requestOf_some (found : requestOf key requests = some row) :
    row ∈ requests.rows ∧ row.key = key :=
  ⟨mem_of_find?_eq_some found, by simpa using find?_some found⟩

def RequestKey.Formed (key : RequestKey) : Prop :=
  key.workspaceID ≠ 0 ∧ key.source.utf8ByteSize ≤ 64 ∧ key.idempotencyKey ≠ "" ∧
    key.idempotencyKey.utf8ByteSize ≤ 128

def Directory.Knows (directory : Directory) (reservation : Reservation) : Prop :=
  reservation.workspaceID ∈ directory.workspaces ∧
  (reservation.itemImageID ≠ 0 → directory.hasImage reservation.workspaceID
    reservation.itemImageID = true)

/-- The ways in which a reservation with a fresh lease owner succeeds. -/
inductive Reserved (now : Clock) (reservation : Reservation) (lockedBy : LeaseToken)
    (requests : Requests) : ExternalRequest × Bool → Requests → Prop where
  | opened {view : ExternalRequest} (missing : requestOf reservation.address requests = none)
      (formed : reservation.address.Formed) (hashed : isRequestHash reservation.hash = true) :
      Reserved now reservation lockedBy requests (view, true)
        (insertExternalRequest now reservation lockedBy requests)
  | reported {row : RequestRow} (found : requestOf reservation.address requests = some row)
      (same : row.requestHash = reservation.hash) :
      Reserved now reservation lockedBy requests (externalRequestToStore row, false) requests
  | exhausted {row : RequestRow} {view : ExternalRequest} {next : Requests} {message : Option String}
      (found : requestOf reservation.address requests = some row)
        (spent : exhaustedExternalRequest now row = true)
      (failed : failRequest now row.key row.lockedBy message requests = .ok next) :
      Reserved now reservation lockedBy requests (view, false) next
  | reclaimed {row : RequestRow} {view : ExternalRequest}
      (found : requestOf reservation.address requests = some row)
      (left : row.attemptCount < row.maxAttempts) (free : row.status = .failed ∨
        staleExternalRequest now row = true) :
      Reserved now reservation lockedBy requests (view, true)
        { requests with
          rows := Table.update (fun other => other.id = row.id) (reclaimed now reservation lockedBy)
            requests.rows }

theorem insertExternalRequest_present (found : requestOf reservation.address requests = some row) :
    insertExternalRequest now reservation lockedBy requests = requests := by
  simp [insertExternalRequest, found]

theorem freshRequest_key {key : RequestKey} {hash : String} {id : Nat} :
    (freshRequest now key hash reservation lockedBy id).key = key := rfl

theorem freshRequest_lockedBy {key : RequestKey} {hash : String} {id : Nat} :
    (freshRequest now key hash reservation lockedBy id).lockedBy = some lockedBy.text := by
  simp only [freshRequest, lockedBy.nullable]

theorem reclaimed_lockedBy : (reclaimed now reservation lockedBy row).lockedBy =
      some lockedBy.text := by
  simp only [reclaimed, lockedBy.nullable]

theorem requestOf_insert_missing (missing : requestOf reservation.address requests = none) :
    requestOf reservation.address (insertExternalRequest now reservation lockedBy requests) =
      some (freshRequest now reservation.address reservation.hash reservation lockedBy
        requests.nextID) := by
  have here : requests.rows.find? (fun row => row.key = reservation.address) = none := missing
  rw [insertExternalRequest, missing, requestOf]
  simp only [Option.isSome_none, Bool.false_eq_true, if_false]
  rw [Table.find?_concat, here, Option.none_or, if_pos freshRequest_key]

theorem reserveLocked_ok (found : requestOf reservation.address requests = some row)
    (same : row.requestHash = reservation.hash) (fresh : row.lockedBy ≠ some lockedBy.text)
    (done : reserveLocked now reservation lockedBy row requests = .ok (answer, next)) :
    Reserved now reservation lockedBy requests answer next := by
  rw [reserveLocked, if_neg fresh] at done
  split at done
  case isTrue =>
    obtain ⟨rfl, rfl⟩ := Prod.mk.inj (pure_ok_iff.mp done)
    exact .reported found same
  case isFalse unspent =>
    split at done
    case isTrue spent =>
      obtain ⟨failed, ended, done⟩ := bind_ok_iff.mp done
      obtain ⟨rfl, rfl⟩ := Prod.mk.inj (pure_ok_iff.mp done)
      exact .exhausted found spent ended
    case isFalse unexhausted =>
      split at done
      case isTrue free =>
        obtain ⟨rfl, rfl⟩ := Prod.mk.inj (pure_ok_iff.mp done)
        simp only [Bool.or_eq_true, decide_eq_true_eq] at free
        refine .reclaimed found ?_ free
        rcases free with failed | stale
        · simpa [failedExternalRequestExhausted, failed] using unspent
        · simp only [staleExternalRequest, Bool.and_eq_true, decide_eq_true_eq] at stale
          exact stale.2
      case isFalse =>
        obtain ⟨rfl, rfl⟩ := Prod.mk.inj (pure_ok_iff.mp done)
        exact .reported found same

theorem reserveExternalRequest_ok (fresh : ∀ row ∈ requests.rows, row.lockedBy ≠ some lockedBy.text)
    (done : reserveExternalRequest now directory reservation lockedBy requests = (.ok answer, next)) :
    Reserved now reservation lockedBy requests answer next := by
  rw [reserveExternalRequest, transaction_ok_iff] at done
  simp only [bind_ok_iff, refuse_ok_iff, selectExternalRequest_ok, exists_const] at done
  obtain ⟨workspace, source, filled, short, hashed, -, -, row, found, same, done⟩ := done
  rw [not_not] at same
  cases before : requestOf reservation.address requests with
  | none =>
    rw [requestOf_insert_missing before] at found
    obtain rfl := Option.some.inj found
    rw [reserveLocked, if_pos freshRequest_lockedBy] at done
    obtain ⟨rfl, rfl⟩ := Prod.mk.inj (pure_ok_iff.mp done)
    exact .opened before ⟨workspace, Nat.le_of_not_lt source, filled, Nat.le_of_not_lt short⟩
      (by simpa using hashed)
  | some present =>
    rw [insertExternalRequest_present before] at found done
    exact reserveLocked_ok found same (fresh row (requestOf_some found).1) done

theorem reserveExternalRequest_cases (now : Clock) (directory : Directory) (reservation : Reservation)
    (fresh : ∀ row ∈ requests.rows, row.lockedBy ≠ some lockedBy.text) :
    (∃ cause, reserveExternalRequest now directory reservation lockedBy requests =
      (.error cause, requests)) ∨
    ∃ answer next, reserveExternalRequest now directory reservation lockedBy
      requests = (.ok answer, next) ∧
      Reserved now reservation lockedBy requests answer next := by
  have ended : (∃ cause, reserveExternalRequest now directory reservation lockedBy
      requests = (.error cause, requests)) ∨
      ∃ answer next, reserveExternalRequest now directory reservation lockedBy
          requests = (.ok answer, next) :=
    transaction_cases _ _
  rcases ended with failed | ⟨answer, next, done⟩
  · exact .inl failed
  · exact .inr ⟨answer, next, done, reserveExternalRequest_ok fresh done⟩

theorem requestOf_insert_other (apart : reservation.address ≠ key) :
    requestOf key (insertExternalRequest now reservation lockedBy requests) =
      requestOf key requests := by
  rw [insertExternalRequest]
  split
  · rfl
  · rw [requestOf, Table.find?_concat, freshRequest_key, if_neg apart, Option.or_none, requestOf]

theorem requestOf_update {selected : RequestRow → Bool} {assign : RequestRow → RequestRow}
    (keeps : ∀ row, (assign row).key = row.key) :
    requestOf key { requests with rows := Table.update selected assign requests.rows } =
      (requestOf key requests).map fun row => if selected row then assign row else row :=
  Table.find?_update keeps

theorem requestOf_update_spared {selected : RequestRow → Bool} {assign : RequestRow → RequestRow}
    (keeps : ∀ row, (assign row).key = row.key)
    (spared : ∀ row, requestOf key requests = some row → selected row = false) :
    requestOf key { requests with rows := Table.update selected assign requests.rows } =
      requestOf key requests := by
  rw [requestOf_update keeps]
  cases found : requestOf key requests with
  | none => rfl
  | some row => simp [spared row found]

theorem reservedBy_iff {owner : Option String} :
    reservedBy key owner row = true ↔
      row.key = key ∧ row.status = .inProgress ∧ ∃ name, owner = some name ∧
      row.lockedBy = some name := by
  simp only [reservedBy, Bool.and_eq_true, decide_eq_true_eq, and_assoc]
  cases owner with
  | none => simp
  | some name => simp

theorem failRequest_ok {owner message : Option String}
    (done : failRequest now key owner message requests = .ok next) :
    (∃ row ∈ requests.rows, reservedBy key owner row = true) ∧
    next = { requests with
      rows := Table.update (reservedBy key owner) (failedRow now message) requests.rows } := by
  simp only [failRequest, bind_ok_iff, requireAffectedRow, refuse_ok_iff, pure_ok_iff,
    exists_const] at done
  refine ⟨?_, done.2.symm⟩
  obtain ⟨row, member, chosen, _⟩ := Table.affected_pos_iff.mp (Nat.pos_of_ne_zero done.1)
  exact ⟨row, member, chosen⟩

theorem completeRequest_ok {owner : Option String} {result : RequestResult}
    (done : completeRequest now directory key owner result requests = .ok next) :
    (∃ row ∈ requests.rows, reservedBy key owner row = true) ∧
    next = { requests with
      rows := Table.update (reservedBy key owner) (completedRow now result) requests.rows } := by
  simp only [completeRequest, bind_ok_iff, requireAffectedRow, refuse_ok_iff, pure_ok_iff,
    exists_const] at done
  obtain ⟨some, rfl⟩ := done
  obtain ⟨row, member, chosen, _⟩ := Table.affected_pos_iff.mp (Nat.pos_of_ne_zero some)
  obtain ⟨mine, owns⟩ := Bool.and_eq_true_iff.mp chosen
  refine ⟨⟨row, member, mine⟩, ?_⟩
  simp only [owns, Bool.and_true]

end Calls

/-! ### Calls and what is observed of one key -/

inductive RequestCall where
  | reserve (directory : Directory) (reservation : Reservation) (lockedBy : LeaseToken)
  | complete (directory : Directory) (workspaceID : Nat) (source key leaseOwner itemID : String)
      (itemImageID jobID : Nat)
  | fail (workspaceID : Nat) (source key leaseOwner message : String)
  | ingest (directory : Directory) (workspaceID : Nat) (source key leaseOwner : String)
      (result : RequestResult)
      (rest : Except StoreError Unit)

/-- An acquisition, and whether its request was completed or failed since. -/
structure Acquisition where
  owner : String
  leaseUntil : Nat
  settled : Bool

structure RequestLog where
  acquisitions : Nat
  latest : Option Acquisition

def acquires (answer : Except StoreError (ExternalRequest × Bool)) : Bool :=
  answer.toOption.any (·.2)

namespace RequestCall

def apply (now : Clock) : RequestCall → Requests → Requests
  | reserve directory reservation lockedBy, requests =>
    (reserveExternalRequest now directory reservation lockedBy requests).2
  | complete directory workspaceID source key leaseOwner itemID itemImageID jobID, requests =>
    (completeExternalRequest now directory workspaceID source key leaseOwner itemID itemImageID
      jobID requests).2
  | fail workspaceID source key leaseOwner message, requests =>
    (failExternalRequest now workspaceID source key leaseOwner message requests).2
  | ingest directory workspaceID source key leaseOwner result rest, requests =>
    (completeWithIngest now directory workspaceID source key leaseOwner result rest requests).2

def address : RequestCall → RequestKey
  | reserve _ reservation _ => reservation.address
  | complete _ workspaceID source key .. => ⟨workspaceID, Go.trimSpace source, Go.trimSpace key⟩
  | fail workspaceID source key .. => ⟨workspaceID, source, key⟩
  | ingest _ workspaceID source key .. => ⟨workspaceID, Go.trimSpace source, Go.trimSpace key⟩

def owner : RequestCall → Option String
  | reserve .. => none
  | complete _ _ _ _ leaseOwner .. => nullableString leaseOwner
  | fail _ _ _ leaseOwner _ => nullableString leaseOwner
  | ingest _ _ _ _ leaseOwner .. => nullableString leaseOwner

def settles (now : Clock) (requests : Requests) : RequestCall → Bool
  | reserve .. => false
  | complete directory workspaceID source key leaseOwner itemID itemImageID jobID =>
    (completeExternalRequest now directory workspaceID source key leaseOwner itemID itemImageID
      jobID requests).1.isOk
  | fail workspaceID source key leaseOwner message =>
    (failExternalRequest now workspaceID source key leaseOwner message requests).1.isOk
  | ingest directory workspaceID source key leaseOwner result rest =>
    (completeWithIngest now directory workspaceID source key leaseOwner result rest requests).1.isOk

/-- What a call adds to the log of a key. -/
def record (key : RequestKey) (now : Clock) (requests : Requests) (log : RequestLog)
    (call : RequestCall) : RequestLog :=
  match call with
  | reserve directory reservation lockedBy =>
    if reservation.address = key ∧ acquires (reserveExternalRequest now directory reservation
      lockedBy requests).1 then
      ⟨log.acquisitions + 1, some ⟨lockedBy.text, requestLease now, false⟩⟩
    else log
  | other =>
    if other.address = key ∧ other.settles now requests then
      { log with latest := log.latest.map fun acquisition => { acquisition with settled := true } }
    else log

def Fresh (requests : Requests) : RequestCall → Prop
  | reserve _ _ lockedBy => ∀ row ∈ requests.rows, row.lockedBy ≠ some lockedBy.text
  | _ => True

end RequestCall

structure RequestState where
  now : Clock
  requests : Requests
  log : RequestLog

/-- One call, not earlier than the one before it. -/
inductive RequestStep (key : RequestKey) : RequestState → RequestState → Prop where
  | call {state : RequestState} (later : Clock) (call : RequestCall) (passed : state.now ≤ later)
      (fresh : call.Fresh state.requests) :
      RequestStep key state ⟨later, call.apply later state.requests,
        call.record key later state.requests state.log⟩

def RequestsReached (key : RequestKey) (state : RequestState) : Prop :=
  ∃ start, Relation.ReflTransGen (RequestStep key) ⟨start, ⟨[], 1⟩, ⟨0, none⟩⟩ state

/-! ### The table -/

structure RequestTable (requests : Requests) : Prop where
  keys : (requests.rows.map RequestRow.key).Nodup
  ids : (requests.rows.map (·.id)).Nodup
  issued : ∀ row ∈ requests.rows, row.id < requests.nextID
  formed : ∀ row ∈ requests.rows, row.key.Formed ∧ isRequestHash row.requestHash = true

namespace RequestTable

variable {now : Clock} {requests : Requests}

theorem update (table : RequestTable requests) {selected : RequestRow → Bool}
    {assign : RequestRow → RequestRow} (keeps : ∀ row, (assign row).key = row.key ∧
      (assign row).id = row.id ∧ (assign row).requestHash = row.requestHash) :
    RequestTable { requests with rows := Table.update selected assign requests.rows } := by
  constructor
  case keys => rw [Table.map_key_update _ fun row _ => (keeps row).1]; exact table.keys
  case ids => rw [Table.map_key_update _ fun row _ => (keeps row).2.1]; exact table.ids
  case issued =>
    refine Table.forall_update table.issued fun row member _ => ?_
    rw [(keeps row).2.1]
    exact table.issued row member
  case formed =>
    refine Table.forall_update table.formed fun row member _ => ?_
    rw [(keeps row).1, (keeps row).2.2]
    exact table.formed row member

theorem insert (table : RequestTable requests) {reservation : Reservation} {lockedBy : LeaseToken}
    (missing : requestOf reservation.address requests = none) (formed : reservation.address.Formed)
    (hashed : isRequestHash reservation.hash = true) :
    RequestTable (insertExternalRequest now reservation lockedBy requests) := by
  simp only [insertExternalRequest, missing, Option.isSome_none, Bool.false_eq_true, if_false]
  constructor
  case keys =>
    simp only [map_append, map_cons, map_nil, nodup_append]
    refine ⟨table.keys, nodup_singleton _, ?_⟩
    intro old present new isNew same
    obtain ⟨row, member, rfl⟩ := mem_map.mp present
    rw [mem_singleton.mp isNew] at same
    exact find?_eq_none.mp missing row member (decide_eq_true same)
  case ids =>
    simp only [map_append, map_cons, map_nil, nodup_append]
    refine ⟨table.ids, nodup_singleton _, ?_⟩
    intro old present new isNew same
    obtain ⟨row, member, rfl⟩ := mem_map.mp present
    rw [mem_singleton.mp isNew] at same
    exact Nat.ne_of_lt (table.issued row member) same
  case issued =>
    intro row present
    rcases mem_append.mp present with member | new
    · exact Nat.lt_succ_of_lt (table.issued row member)
    · rw [mem_singleton.mp new]
      exact Nat.lt_succ_self _
  case formed =>
    intro row present
    rcases mem_append.mp present with member | new
    · exact table.formed row member
    · rw [mem_singleton.mp new, freshRequest_key]
      exact ⟨formed, hashed⟩

theorem requestOf_mem (table : RequestTable requests) (member : row ∈ requests.rows) :
    requestOf row.key requests = some row :=
  (Table.find?_key table.keys).mpr ⟨member, rfl⟩

end RequestTable

/-! ### The rows that a reservation leaves alone -/

section Reserved

variable {now : Clock} {reservation : Reservation} {lockedBy : LeaseToken} {requests next : Requests}
  {answer : ExternalRequest × Bool} {key : RequestKey} {row : RequestRow}

theorem exhausted_inProgress (spent : exhaustedExternalRequest now row = true) :
    row.status = .inProgress := by
  simp only [exhaustedExternalRequest, Bool.and_eq_true, decide_eq_true_eq] at spent
  exact spent.1.1

theorem stale_inProgress (stale : staleExternalRequest now row = true) : row.status = .inProgress := by
  simp only [staleExternalRequest, Bool.and_eq_true, decide_eq_true_eq] at stale
  exact stale.1.1

theorem requestOf_exhausted {owner : String} {message : Option String}
    (found : requestOf key requests = some row) (running : row.status = .inProgress)
    (held : row.lockedBy = some owner)
    (failed : failRequest now row.key row.lockedBy message requests = .ok next) :
    requestOf key next = some (failedRow now message row) := by
  obtain ⟨-, rfl⟩ := failRequest_ok failed
  have chosen : reservedBy row.key row.lockedBy row = true :=
    reservedBy_iff.mpr ⟨rfl, running, owner, held, held⟩
  rw [requestOf_update (by exact fun _ => rfl), found, Option.map_some, if_pos chosen]

theorem requestOf_reclaimed (found : requestOf key requests = some row) :
    requestOf key { requests with
      rows := Table.update (fun other => other.id = row.id) (reclaimed now reservation lockedBy)
        requests.rows } =
      some (reclaimed now reservation lockedBy row) := by
  rw [requestOf_update (by exact fun _ => rfl), found]
  simp

theorem Reserved.table (reserved : Reserved now reservation lockedBy requests answer next)
    (table : RequestTable requests) : RequestTable next := by
  cases reserved with
  | opened missing formed hashed => exact table.insert missing formed hashed
  | reported found same => exact table
  | exhausted found spent failed =>
    obtain ⟨-, rfl⟩ := failRequest_ok failed
    exact table.update fun row => ⟨rfl, rfl, rfl⟩
  | reclaimed found left free => exact table.update fun row => ⟨rfl, rfl, rfl⟩

theorem Reserved.other (reserved : Reserved now reservation lockedBy requests answer next)
    (table : RequestTable requests) (apart : reservation.address ≠ key) :
    requestOf key next = requestOf key requests := by
  cases reserved with
  | opened missing formed hashed => exact requestOf_insert_other apart
  | reported found same => rfl
  | exhausted found spent failed =>
    obtain ⟨-, rfl⟩ := failRequest_ok failed
    refine requestOf_update_spared (fun _ => rfl) fun present isPresent => ?_
    by_contra chosen
    have isKey := (reservedBy_iff.mp (by simpa using chosen)).1
    exact apart (((requestOf_some found).2.symm.trans isKey.symm).trans (requestOf_some isPresent).2)
  | reclaimed found left free =>
    refine requestOf_update_spared (fun _ => rfl) fun present isPresent => ?_
    refine decide_eq_false fun sameID => ?_
    have := inj_on_of_nodup_map table.ids (requestOf_some isPresent).1 (requestOf_some found).1 sameID
    exact apart ((requestOf_some found).2.symm.trans (this ▸ (requestOf_some isPresent).2))

end Reserved

/-! ### The calls of an owner -/

/-- What the owner of a reservation writes: the request is no longer in progress and nobody holds
it. -/
structure Settling (assign : RequestRow → RequestRow) : Prop where
  key : ∀ row, (assign row).key = row.key
  id : ∀ row, (assign row).id = row.id
  hash : ∀ row, (assign row).requestHash = row.requestHash
  attempts : ∀ row, (assign row).attemptCount = row.attemptCount ∧
    (assign row).maxAttempts = row.maxAttempts
  status : ∀ row, (assign row).status ≠ .inProgress
  lockedBy : ∀ row, (assign row).lockedBy = none

theorem Settling.failed (now : Clock) (message : Option String) :
    Settling (failedRow now message) := by
  constructor <;> intro row <;> simp [failedRow, RequestRow.key]

theorem Settling.completed (now : Clock) (result : RequestResult) :
    Settling (completedRow now result) := by
  constructor <;> intro row <;> simp [completedRow, RequestRow.key]

/-- What an owner's call does to the table, and what it reports. -/
inductive OwnerEffect (address : RequestKey) (owner : Option String) (requests : Requests) :
    Bool → Requests → Prop where
  | refused : OwnerEffect address owner requests false requests
  | settled {row : RequestRow} {assign : RequestRow → RequestRow} (member : row ∈ requests.rows)
      (held : reservedBy address owner row = true) (settling : Settling assign) :
      OwnerEffect address owner requests true
        { requests with rows := Table.update (reservedBy address owner) assign requests.rows }

variable {address : RequestKey} {requests : Requests}

section
variable {owner : Option String} {next : Requests} {ok : Bool}
  (effect : OwnerEffect address owner requests ok next)
include effect

theorem OwnerEffect.table (table : RequestTable requests) : RequestTable next := by
  cases effect with
  | refused => exact table
  | settled member held settling => exact table.update fun row =>
    ⟨settling.key row, settling.id row, settling.hash row⟩

theorem OwnerEffect.spared {key : RequestKey}
    (spared : ∀ row, requestOf key requests = some row → reservedBy address owner row = false) :
    requestOf key next = requestOf key requests := by
  cases effect with
  | refused => rfl
  | settled member held settling => exact requestOf_update_spared settling.key spared

theorem OwnerEffect.other {key : RequestKey} (apart : address ≠ key) :
    requestOf key next = requestOf key requests := by
  refine effect.spared fun row found => ?_
  by_contra chosen
  have isKey := (reservedBy_iff.mp (by simpa using chosen)).1
  exact apart (isKey.symm.trans (requestOf_some found).2)

end

theorem OwnerEffect.transaction {owner : Option String}
    {body : Requests → Except StoreError (Unit × Requests)}
    (commits : ∀ value next, body requests = .ok (value, next) →
      OwnerEffect address owner requests true next) :
    OwnerEffect address owner requests (Store.transaction body requests).1.isOk
      (Store.transaction body requests).2 := by
  rw [Store.transaction]
  cases ran : body requests with
  | error cause => exact .refused
  | ok outcome => exact commits outcome.1 outcome.2 ran

theorem completeExternalRequest_effect {now : Clock} {directory : Directory} {workspaceID : Nat}
    {source key leaseOwner itemID : String} {itemImageID jobID : Nat} :
    OwnerEffect ⟨workspaceID, Go.trimSpace source, Go.trimSpace key⟩
      (nullableString leaseOwner) requests
      (completeExternalRequest now directory workspaceID source key leaseOwner itemID itemImageID
        jobID requests).1.isOk
      (completeExternalRequest now directory workspaceID source key leaseOwner itemID itemImageID
        jobID requests).2 := by
  refine OwnerEffect.transaction fun value next done => ?_
  simp only [bind_ok_iff, refuse_ok_iff, pure_ok_iff, Prod.mk.injEq, exists_const, true_and] at done
  obtain ⟨-, -, -, -, -, -, completed, done, rfl⟩ := done
  obtain ⟨⟨row, member, held⟩, rfl⟩ := completeRequest_ok done
  exact .settled member held (.completed now _)

theorem completeWithIngest_effect {now : Clock} {directory : Directory} {workspaceID : Nat}
    {source key leaseOwner : String} {result : RequestResult} {rest : Except StoreError Unit} :
    OwnerEffect ⟨workspaceID, Go.trimSpace source, Go.trimSpace key⟩
      (nullableString leaseOwner) requests
      (completeWithIngest now directory workspaceID source key leaseOwner result rest requests).1.isOk
      (completeWithIngest now directory workspaceID source key leaseOwner result rest requests).2 := by
  refine OwnerEffect.transaction fun value next done => ?_
  simp only [bind_ok_iff, pure_ok_iff, Prod.mk.injEq, true_and] at done
  obtain ⟨completed, done, _, -, rfl⟩ := done
  obtain ⟨⟨row, member, held⟩, rfl⟩ := completeRequest_ok done
  exact .settled member held (.completed now _)

theorem failExternalRequest_effect {now : Clock} {workspaceID : Nat}
    {source key leaseOwner message : String} :
    OwnerEffect ⟨workspaceID, source, key⟩ (nullableString leaseOwner) requests
      (failExternalRequest now workspaceID source key leaseOwner message requests).1.isOk
      (failExternalRequest now workspaceID source key leaseOwner message requests).2 := by
  simp only [failExternalRequest, autocommit, pure, Except.pure, requireAffectedRow, refuse_isOk]
  by_cases none : Table.affected (reservedBy ⟨workspaceID, source, key⟩ (nullableString leaseOwner))
      (failedRow now (nullableString message)) requests.rows = 0
  · rw [Table.update_of_affected_zero none]
    simp only [none, not_true, decide_false]
    exact .refused
  · obtain ⟨row, member, held, _⟩ := Table.affected_pos_iff.mp (Nat.pos_of_ne_zero none)
    simp only [none, not_false_iff, decide_true]
    exact .settled member held (.failed now _)

theorem RequestCall.effect {now : Clock} {call : RequestCall}
    (owned : ∀ directory reservation lockedBy, call ≠ .reserve directory reservation lockedBy) :
    OwnerEffect call.address call.owner requests (call.settles now requests)
    (call.apply now requests) := by
  cases call with
  | reserve directory reservation lockedBy => exact absurd rfl (owned directory reservation lockedBy)
  | complete => exact completeExternalRequest_effect
  | fail => exact failExternalRequest_effect
  | ingest => exact completeWithIngest_effect

/-! ### The invariant of one key -/

/-- How the row of a key reflects its latest acquisition. -/
structure RequestOwned (now : Clock) (acquisition : Acquisition) (row : RequestRow) : Prop where
  running : row.status = .inProgress → row.lockedBy = some acquisition.owner ∧
    row.leaseUntil = some acquisition.leaseUntil ∧ acquisition.settled = false
  idle : row.status ≠ .inProgress → row.lockedBy = none ∧
    (acquisition.settled = true ∨ after now acquisition.leaseUntil = true)

structure RequestHeld (now : Clock) (log : RequestLog) (row : RequestRow) : Prop where
  counted : log.acquisitions = row.attemptCount
  bounded : row.attemptCount ≤ row.maxAttempts
  limit : row.maxAttempts = externalRequestMaxAttempts
  owned : ∃ acquisition, log.latest = some acquisition ∧ RequestOwned now acquisition row

/-- What the log says of the row of its key, or of a key without a row. -/
inductive RequestTracked (now : Clock) : RequestLog → Option RequestRow → Prop where
  | untouched : RequestTracked now ⟨0, none⟩ none
  | held {log : RequestLog} {row : RequestRow} (held : RequestHeld now log row) : RequestTracked now
    log (some row)

structure RequestSound (key : RequestKey) (state : RequestState) : Prop where
  table : RequestTable state.requests
  tracked : RequestTracked state.now state.log (requestOf key state.requests)

namespace RequestHeld

variable {now : Clock} {log : RequestLog} {row : RequestRow}

theorem later {time : Clock} (held : RequestHeld now log row) (passed : now ≤ time) :
    RequestHeld time log row := by
  obtain ⟨acquisition, isLatest, owned⟩ := held.owned
  refine { held with owned := ⟨acquisition, isLatest, owned.running, fun idle => ?_⟩ }
  obtain ⟨unlocked, settled | expired⟩ := owned.idle idle
  · exact ⟨unlocked, .inl settled⟩
  · exact ⟨unlocked, .inr (after_mono passed expired)⟩

theorem settled (held : RequestHeld now log row) {assign : RequestRow → RequestRow}
    (settling : Settling assign) : RequestHeld now
      { log with latest := log.latest.map fun acquisition => { acquisition with settled := true } }
      (assign row) := by
  obtain ⟨acquisition, isLatest, owned⟩ := held.owned
  constructor
  case counted => rw [(settling.attempts row).1]; exact held.counted
  case bounded => rw [(settling.attempts row).1, (settling.attempts row).2]; exact held.bounded
  case limit => rw [(settling.attempts row).2]; exact held.limit
  case owned =>
    refine ⟨{ acquisition with settled := true }, by rw [isLatest, Option.map_some], ?_, fun _ => ?_⟩
    · exact fun running => absurd running (settling.status row)
    · exact ⟨settling.lockedBy row, .inl rfl⟩

theorem opened (key : RequestKey) (hash : String) (reservation : Reservation)
    (lockedBy : LeaseToken) (id : Nat) :
    RequestHeld now ⟨1, some ⟨lockedBy.text, requestLease now, false⟩⟩
      (freshRequest now key hash reservation lockedBy id) := by
  constructor
  case counted => rfl
  case bounded => exact show 1 ≤ externalRequestMaxAttempts by decide
  case limit => rfl
  case owned => exact ⟨_, rfl, fun _ => ⟨freshRequest_lockedBy, rfl, rfl⟩, fun idle => absurd rfl idle⟩

theorem exhausted (held : RequestHeld now log row) (spent : exhaustedExternalRequest now row = true)
    (message : Option String) : RequestHeld now log (failedRow now message row) := by
  obtain ⟨acquisition, isLatest, owned⟩ := held.owned
  simp only [exhaustedExternalRequest, Bool.and_eq_true, decide_eq_true_eq] at spent
  have expired := spent.1.2
  rw [(owned.running spent.1.1).2.1, Option.any_some] at expired
  have idle : (failedRow now message row).status ≠ .inProgress := by simp [failedRow]
  exact { held with owned := ⟨acquisition, isLatest, fun running => absurd running idle, fun _ =>
    ⟨rfl, .inr expired⟩⟩ }

theorem reclaimed (held : RequestHeld now log row) (left : row.attemptCount < row.maxAttempts)
    (reservation : Reservation) (lockedBy : LeaseToken) :
    RequestHeld now ⟨log.acquisitions + 1, some ⟨lockedBy.text, requestLease now, false⟩⟩
      (Store.reclaimed now reservation lockedBy row) := by
  constructor
  case counted => exact congrArg (· + 1) held.counted
  case bounded => exact left
  case limit => exact held.limit
  case owned => exact ⟨_, rfl, fun _ => ⟨reclaimed_lockedBy, rfl, rfl⟩, fun idle => absurd rfl idle⟩

end RequestHeld

namespace RequestTracked

variable {now : Clock} {log : RequestLog}

theorem log_eq (tracked : RequestTracked now log none) : log = ⟨0, none⟩ := by
  cases tracked with
  | untouched => rfl

theorem of_some (tracked : RequestTracked now log (some row)) : RequestHeld now log row := by
  cases tracked with
  | held here => exact here

theorem later {time : Clock} {found : Option RequestRow} (tracked : RequestTracked now log found)
    (passed : now ≤ time) : RequestTracked time log found := by
  cases tracked with
  | untouched => exact .untouched
  | held here => exact .held (here.later passed)

end RequestTracked

namespace RequestSound

variable {key : RequestKey} {state : RequestState} {later : Clock}

theorem start (now : Clock) : RequestSound key ⟨now, ⟨[], 1⟩, ⟨0, none⟩⟩ :=
  ⟨⟨nodup_nil, nodup_nil, (fun _ member => nomatch member), (fun _ member => nomatch member)⟩,
    .untouched⟩

section
variable (sound : RequestSound key state)
include sound

theorem wait (passed : state.now ≤ later) : RequestSound key { state with now := later } :=
  ⟨sound.table, sound.tracked.later passed⟩

theorem held (found : requestOf key state.requests = some row) :
    RequestHeld state.now state.log row := by
  have tracked := sound.tracked
  rw [found] at tracked
  exact tracked.of_some

theorem log_eq (missing : requestOf key state.requests = none) : state.log = ⟨0, none⟩ := by
  have tracked := sound.tracked
  rw [missing] at tracked
  exact tracked.log_eq

theorem ownerCall {owner : Option String} {ok : Bool}
    {next : Requests} (effect : OwnerEffect address owner state.requests ok next) :
    RequestSound key { state with
      requests := next
      log := if address = key ∧ ok = true then
        { state.log with latest := state.log.latest.map fun acquisition =>
          { acquisition with settled := true } }
        else state.log } := by
  refine ⟨effect.table sound.table, ?_⟩
  by_cases same : address = key
  case neg =>
    simp only [same, false_and, if_false, effect.other same]
    exact sound.tracked
  subst same
  cases effect with
  | refused => simpa using sound.tracked
  | @settled row assign member held settling =>
    -- the settled row is the one of the key
    have found : requestOf address state.requests = some row :=
      (reservedBy_iff.mp held).1 ▸ sound.table.requestOf_mem member
    simp only [requestOf_update settling.key, found, Option.map_some, held, if_true, and_self]
    exact .held ((sound.held found).settled settling)

theorem reservation {reservation : Reservation} {lockedBy : LeaseToken}
    {answer : ExternalRequest × Bool} {next : Requests}
    (reserved : Reserved state.now reservation lockedBy state.requests answer next) :
    RequestSound key { state with
      requests := next
      log := if reservation.address = key ∧ answer.2 = true then
        ⟨state.log.acquisitions + 1, some ⟨lockedBy.text, requestLease state.now, false⟩⟩
          else state.log } := by
  refine ⟨reserved.table sound.table, ?_⟩
  by_cases same : reservation.address = key
  case neg =>
    simp only [same, false_and, if_false, reserved.other sound.table same]
    exact sound.tracked
  subst same
  cases reserved with
  | opened missing formed hashed =>
    simp only [requestOf_insert_missing missing, and_self, if_true, sound.log_eq missing]
    exact .held (.opened _ _ reservation lockedBy _)
  | reported found same => simpa using sound.tracked
  | exhausted found spent failed =>
    obtain ⟨acquisition, _, owned⟩ := (sound.held found).owned
    have running := exhausted_inProgress spent
    simp only [requestOf_exhausted found running (owned.running running).1 failed,
      Bool.false_eq_true, and_false, if_false]
    exact .held ((sound.held found).exhausted spent _)
  | @reclaimed row view found left free =>
    simp only [requestOf_reclaimed found, and_self, if_true]
    exact .held ((sound.held found).reclaimed left reservation lockedBy)

theorem step {next : RequestState} (stepped : RequestStep key state next) : RequestSound key next := by
  cases stepped with
  | call later call passed fresh =>
    have waited := sound.wait passed
    cases call with
    | reserve directory reservation lockedBy =>
      rcases reserveExternalRequest_cases later directory reservation fresh with
          ⟨cause, failed⟩ | ⟨answer, after, done, reserved⟩
      · simp only [RequestCall.apply, RequestCall.record, failed, acquires]
        simpa [Except.toOption] using waited
      · simp only [RequestCall.apply, RequestCall.record, done, acquires]
        exact waited.reservation reserved
    | complete directory workspaceID source key leaseOwner itemID itemImageID jobID =>
      exact waited.ownerCall completeExternalRequest_effect
    | fail workspaceID source key leaseOwner message =>
      exact waited.ownerCall failExternalRequest_effect
    | ingest directory workspaceID source key leaseOwner result rest =>
      exact waited.ownerCall completeWithIngest_effect

end

theorem reached (arrives : RequestsReached key state) : RequestSound key state := by
  obtain ⟨now, run⟩ := arrives
  induction run with
  | refl => exact .start now
  | tail _ stepped ih => exact ih.step stepped

end RequestSound

/-! ### One request, handed over and completed once -/

section Once

variable {now later : Clock} {directory : Directory} {reservation : Reservation}
  {lockedBy : LeaseToken} {requests : Requests} {key : RequestKey} {row : RequestRow}
  {state : RequestState}

section
variable (found : requestOf reservation.address requests = some row)
  (formed : reservation.address.Formed) (hashed : isRequestHash reservation.hash = true)
  (knows : directory.Knows reservation)
include found formed hashed knows

theorem reserve_found :
    reserveExternalRequest now directory reservation lockedBy requests =
      transaction (fun _ => do
        refuse (row.requestHash ≠ reservation.hash) .externalRequestMismatch
        reserveLocked now reservation lockedBy row requests) requests := by
  have workspace : reservation.workspaceID ≠ 0 := formed.1
  have image : ¬(reservation.itemImageID ≠ 0 ∧
      directory.hasImage reservation.workspaceID reservation.itemImageID = false) := by
    intro unknown
    rw [knows.2 unknown.1] at unknown
    cases unknown.2
  simp only [reserveExternalRequest, transaction, insertExternalRequest_present found,
    selectExternalRequest_ok.mpr found, refuse_of_not workspace,
    refuse_of_not (Nat.not_lt.mpr formed.2.1), refuse_of_not formed.2.2.1,
    refuse_of_not (Nat.not_lt.mpr formed.2.2.2), refuse_of_not (not_not.mpr knows.1),
    refuse_of_not image,
    refuse_of_not (Bool.not_eq_false _ ▸ hashed : ¬isRequestHash reservation.hash = false),
    bind, Except.bind]

theorem reserve_mismatch (differs : reservation.hash ≠ row.requestHash) :
    reserveExternalRequest now directory reservation lockedBy requests =
      (.error .externalRequestMismatch, requests) := by
  rw [reserve_found found formed hashed knows]
  rw [refuse_of differs.symm]
  rfl

theorem reserve_completed (same : reservation.hash = row.requestHash)
    (completed : row.status = .completed) (unlocked : row.lockedBy = none) :
    reserveExternalRequest now directory reservation lockedBy requests =
      (.ok (externalRequestToStore row, false), requests) := by
  rw [reserve_found found formed hashed knows, transaction_ok_iff,
    refuse_of_not (not_not.mpr same.symm)]
  simp [reserveLocked, unlocked, completed, failedExternalRequestExhausted, exhaustedExternalRequest,
    staleExternalRequest, bind, Except.bind, pure, Except.pure]

end

section
variable (sound : RequestSound key state)
include sound

/-- Nobody else acquires the request before its lease is over. -/
theorem RequestSound.waits {acquisition : Acquisition}
    (latest : state.log.latest = some acquisition) (unsettled : acquisition.settled = false)
    (passed : state.now ≤ later) (before : after later acquisition.leaseUntil = false)
    (isKey : reservation.address = key)
    (fresh : ∀ row ∈ state.requests.rows, row.lockedBy ≠ some lockedBy.text) :
    acquires (reserveExternalRequest later directory reservation lockedBy state.requests).1 =
      false := by
  subst isKey
  rcases reserveExternalRequest_cases later directory reservation fresh with
      ⟨cause, failed⟩ | ⟨answer, next, done, reserved⟩
  · rw [failed]
    rfl
  · rw [done]
    cases reserved with
    | opened missing formed hashed =>
      rw [sound.log_eq missing] at latest
      cases latest
    | reported found same => rfl
    | exhausted found spent failed => rfl
    | reclaimed found left free =>
      obtain ⟨current, isCurrent, owned⟩ := (sound.held found).owned
      obtain rfl : current = acquisition := Option.some.inj (isCurrent.symm.trans latest)
      rcases free with failed | stale
      · obtain ⟨_, settled | expired⟩ := owned.idle (by rw [failed]; decide)
        · rw [settled] at unsettled
          cases unsettled
        · rw [after_mono passed expired] at before
          cases before
      · have running := owned.running (stale_inProgress stale)
        simp only [staleExternalRequest, Bool.and_eq_true] at stale
        have expired := stale.1.2
        rw [running.2.1, Option.any_some, before] at expired
        cases expired

theorem RequestSound.owner_only {owner : Option String}
    {ok : Bool} {next : Requests} (effect : OwnerEffect address owner state.requests ok next)
    (changed : requestOf key next ≠ requestOf key state.requests) :
    ∃ acquisition, state.log.latest = some acquisition ∧ owner = some acquisition.owner := by
  by_contra stranger
  refine changed (effect.spared fun row found => ?_)
  by_contra chosen
  obtain ⟨_, running, name, isOwner, held⟩ := reservedBy_iff.mp (by simpa using chosen)
  obtain ⟨acquisition, latest, owned⟩ := (sound.held found).owned
  rw [(owned.running running).1] at held
  exact stranger ⟨acquisition, latest, by rw [isOwner, ← Option.some.inj held]⟩

theorem RequestSound.completed_step {next : RequestState}
    (found : requestOf key state.requests = some row) (completed : row.status = .completed)
    (stepped : RequestStep key state next) : requestOf key next.requests = some row := by
  have finished : row.status ≠ .inProgress := by rw [completed]; decide
  -- The owner's statements select rows in progress only.
  have spared : ∀ address owner other, requestOf key state.requests = some other →
      reservedBy address owner other = false := by
    intro address owner other isOther
    obtain rfl : row = other := Option.some.inj (found.symm.trans isOther)
    by_contra chosen
    exact finished (reservedBy_iff.mp (by simpa using chosen)).2.1
  cases stepped with
  | call later call passed fresh =>
    by_cases reserves : ∃ directory reservation lockedBy,
      call = .reserve directory reservation lockedBy
    case neg =>
      have owned : ∀ directory reservation lockedBy, call ≠ .reserve directory reservation lockedBy :=
        fun directory reservation lockedBy isReserve =>
          reserves ⟨directory, reservation, lockedBy, isReserve⟩
      exact ((call.effect owned).spared (spared _ _)).trans found
    obtain ⟨directory, reservation, lockedBy, rfl⟩ := reserves
    simp only [RequestCall.apply]
    rcases reserveExternalRequest_cases later directory reservation fresh with
        ⟨cause, failed⟩ | ⟨answer, next, done, reserved⟩
    · rw [failed]
      exact found
    rw [done]
    by_cases isKey : reservation.address = key
    case neg => exact (reserved.other sound.table isKey).trans found
    subst isKey
    cases reserved with
    | opened missing formed hashed =>
      rw [missing] at found
      cases found
    | reported isFound same => exact found
    -- Expiry and reclaiming are about rows in progress or failed.
    | exhausted isFound spent failed =>
      obtain rfl := Option.some.inj (found.symm.trans isFound)
      exact absurd (exhausted_inProgress spent) finished
    | reclaimed isFound left free =>
      obtain rfl := Option.some.inj (found.symm.trans isFound)
      rcases free with failed | stale
      · rw [completed] at failed
        cases failed
      · exact absurd (stale_inProgress stale) finished

theorem RequestSound.completed_run {final : RequestState}
    (found : requestOf key state.requests = some row) (completed : row.status = .completed)
    (run : Relation.ReflTransGen (RequestStep key) state final) :
    RequestSound key final ∧ requestOf key final.requests = some row := by
  induction run with
  | refl => exact ⟨sound, found⟩
  | tail _ stepped ih => exact ⟨ih.1.step stepped, ih.1.completed_step ih.2 completed stepped⟩

end

/-- An external request, over every interleaving of the calls for its key: it is acquired at most
three times; from an acquisition to its completion, its failure or the end of its lease nobody else
acquires it; only the owner of the latest acquisition completes or fails it; a completed request
keeps its row, and reserving it again with the same hash reports that row; and a reservation with
another hash is refused and changes nothing. -/
theorem external_request_idempotent (key : RequestKey) (state : RequestState)
    (reached : RequestsReached key state) : state.log.acquisitions ≤ externalRequestMaxAttempts ∧
    (∀ acquisition, state.log.latest = some acquisition → acquisition.settled = false →
      ∀ later directory reservation lockedBy, state.now ≤ later →
        after later acquisition.leaseUntil = false →
        reservation.address = key → (RequestCall.reserve directory reservation lockedBy).Fresh
          state.requests →
        acquires (reserveExternalRequest later directory reservation lockedBy state.requests).1 =
          false) ∧
    (∀ (call : RequestCall) later,
      (∀ directory reservation lockedBy, call ≠ .reserve directory reservation lockedBy) →
      requestOf key (call.apply later state.requests) ≠ requestOf key state.requests →
      ∃ acquisition, state.log.latest = some acquisition ∧ call.owner = some acquisition.owner) ∧
    (∀ row, requestOf key state.requests = some row → row.status = .completed →
      ∀ final, Relation.ReflTransGen (RequestStep key) state final →
        requestOf key final.requests = some row ∧
        ∀ later directory reservation lockedBy, reservation.address = key →
          reservation.hash = row.requestHash →
          directory.Knows reservation →
          reserveExternalRequest later directory reservation lockedBy final.requests =
            (.ok (externalRequestToStore row, false), final.requests)) ∧
    (∀ row, requestOf key state.requests = some row →
      ∀ later directory reservation lockedBy, reservation.address = key →
        reservation.hash ≠ row.requestHash →
        isRequestHash reservation.hash = true → directory.Knows reservation →
        reserveExternalRequest later directory reservation lockedBy state.requests =
          (.error .externalRequestMismatch, state.requests)) := by
  have sound := RequestSound.reached reached
  refine ⟨?_, ?_, ?_, ?_, ?_⟩
  -- Attempts are counted in the row, so the log is bounded by the row's limit.
  · cases found : requestOf key state.requests with
    | none =>
      rw [sound.log_eq found]
      exact Nat.zero_le _
    | some row =>
      have held := sound.held found
      rw [held.counted, ← held.limit]
      exact held.bounded
  · intro acquisition latest unsettled later directory reservation lockedBy passed before isKey fresh
    exact sound.waits latest unsettled passed before isKey fresh
  · intro call later owned changed
    exact sound.owner_only (call.effect owned) changed
  -- A completed row is idle from then on, so a later reservation finds it unlocked.
  · intro row found completed final run
    obtain ⟨after, stays⟩ := sound.completed_run found completed run
    refine ⟨stays, fun later directory reservation lockedBy isKey same knows => ?_⟩
    obtain ⟨formed, hashed⟩ := after.table.formed row (requestOf_some stays).1
    obtain ⟨acquisition, _, owned⟩ := (after.held stays).owned
    have unlocked := (owned.idle (by rw [completed]; decide)).1
    rw [(requestOf_some stays).2, ← isKey] at formed
    exact reserve_completed (isKey ▸ stays) formed (same ▸ hashed) knows same completed unlocked
  · intro row found later directory reservation lockedBy isKey differs hashed knows
    obtain ⟨formed, _⟩ := sound.table.formed row (requestOf_some found).1
    rw [(requestOf_some found).2, ← isKey] at formed
    exact reserve_mismatch (isKey ▸ found) formed hashed knows differs

end Once

/-! An upload that is reserved, completed with its item, image and job, and reserved again. -/

def uploadKey : RequestKey := ⟨1, "upload", "key-1"⟩

def uploadReservation : Reservation :=
  { workspaceID := 1, source := "upload", key := " key-1", eventHeader := "", itemImageID := 0,
    requestHash := "00112233445566778899aabbccddeeff00112233445566778899aabbccddeeff" }

def uploadDirectory : Directory := ⟨[1], [(1, "item-1")], [⟨5, 1, "item-1"⟩], [⟨9, 1, 5⟩], []⟩

def uploadOwner : LeaseToken := ⟨"request-1", by decide +kernel, by decide⟩

def uploadReserve : RequestCall := .reserve uploadDirectory uploadReservation uploadOwner

def uploadComplete : RequestCall :=
  .complete uploadDirectory 1 "upload" "key-1" "request-1" "item-1" 5 9

def uploadReserved : RequestState :=
  ⟨0, uploadReserve.apply 0 ⟨[], 1⟩, uploadReserve.record uploadKey 0 ⟨[], 1⟩ ⟨0, none⟩⟩

def uploadCompleted : RequestState :=
  ⟨1000000, uploadComplete.apply 1000000 uploadReserved.requests,
    uploadComplete.record uploadKey 1000000 uploadReserved.requests uploadReserved.log⟩

theorem uploadCompleted_reached : RequestsReached uploadKey uploadCompleted := by
  have reserved : RequestStep uploadKey ⟨0, ⟨[], 1⟩, ⟨0, none⟩⟩ uploadReserved :=
    .call 0 uploadReserve (Nat.le_refl 0) fun _ member => nomatch member
  have completed : RequestStep uploadKey uploadReserved uploadCompleted :=
    .call 1000000 uploadComplete (Nat.zero_le _) trivial
  exact ⟨0, (Relation.ReflTransGen.single reserved).tail completed⟩

theorem external_request_idempotent_upload :
    RequestsReached uploadKey uploadCompleted ∧ uploadCompleted.log.acquisitions = 1 ∧
    ∃ row, requestOf uploadKey uploadCompleted.requests = some row ∧
      row.result = ⟨some "item-1", some 5, some 9, none⟩ ∧
      reserveExternalRequest 2000000 uploadDirectory uploadReservation uploadOwner
        uploadCompleted.requests =
        (.ok (externalRequestToStore row, false), uploadCompleted.requests) := by
  have stored : (requestOf uploadKey uploadCompleted.requests).map (fun row =>
    (row.status, row.result, row.requestHash)) =
      some (.completed, ⟨some "item-1", some 5, some 9, none⟩,
        uploadReservation.hash) := by decide +kernel
  obtain ⟨row, found, same⟩ := Option.map_eq_some_iff.mp stored
  obtain ⟨completed, result, hash⟩ : row.status = .completed ∧
      row.result = ⟨some "item-1", some 5, some 9, none⟩ ∧
      row.requestHash = uploadReservation.hash := by simpa only [Prod.mk.injEq] using same
  refine ⟨uploadCompleted_reached, by decide +kernel, row, found, result, ?_⟩
  have idempotent :=
    (external_request_idempotent uploadKey uploadCompleted uploadCompleted_reached).2.2.2.1
  refine (idempotent row found completed uploadCompleted .refl).2 2000000 uploadDirectory
    uploadReservation uploadOwner
    (by decide +kernel) hash.symm ⟨mem_singleton.mpr rfl, fun image => absurd rfl image⟩

end Scribe.Store
