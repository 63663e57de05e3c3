import Scribe.Data.Table
import Scribe.Store.Database
import Mathlib.Logic.Relation

/-! Idempotent external requests.

A caller reserves a request under its workspace, source and idempotency key, works
under a lease, and completes or fails the request with the lease owner it was given.
The rows of other tables that these calls look at are a `Directory`, which may be
another one at every call.
-/

set_option autoImplicit false

namespace Scribe.Store

open Attempt (refuse)

inductive ExternalRequestStatus where
  | inProgress
  | completed
  | failed
  deriving DecidableEq, Repr

/-- What a completed request points to. -/
structure RequestResult where
  itemID : Option String
  itemImageID : Option Nat
  transcriptionJobID : Option Nat
  sessionID : Option String
  deriving DecidableEq

structure RequestRow where
  id : Nat
  workspaceID : Nat
  source : String
  idempotencyKey : String
  requestHash : String
  status : ExternalRequestStatus
  result : RequestResult
  eventHeader : Option String
  attemptCount : Nat
  maxAttempts : Nat
  leaseUntil : Option Nat
  lockedBy : Option String
  errorMessage : Option String
  updatedAt : Nat
  deriving DecidableEq

structure Requests where
  rows : List RequestRow
  nextID : Nat
  deriving DecidableEq

structure RequestKey where
  workspaceID : Nat
  source : String
  idempotencyKey : String
  deriving DecidableEq

def RequestRow.key (row : RequestRow) : RequestKey := ⟨row.workspaceID, row.source, row.idempotencyKey⟩

def requestOf (key : RequestKey) (requests : Requests) : Option RequestRow :=
  requests.rows.find? fun row => row.key = key

def selectExternalRequest (key : RequestKey) (requests : Requests) : Except StoreError RequestRow :=
  (requestOf key requests).elim (throw .noRows) pure

structure ExternalRequest where
  id : Nat
  workspaceID : Nat
  source : String
  idempotencyKey : String
  requestHash : String
  status : ExternalRequestStatus
  itemID : String
  itemImageID : Nat
  transcriptionJobID : Nat
  sessionID : String
  attemptCount : Nat
  maxAttempts : Nat
  errorMessage : String
  leaseOwner : String
  deriving DecidableEq

def externalRequestToStore (row : RequestRow) : ExternalRequest :=
  { id := row.id, workspaceID := row.workspaceID, source := row.source,
    idempotencyKey := row.idempotencyKey, requestHash := row.requestHash, status := row.status,
    itemID := row.result.itemID.getD "", itemImageID := row.result.itemImageID.getD 0,
    transcriptionJobID := row.result.transcriptionJobID.getD 0,
    sessionID := row.result.sessionID.getD "", attemptCount := row.attemptCount,
    maxAttempts := row.maxAttempts, errorMessage := row.errorMessage.getD "",
    leaseOwner := row.lockedBy.getD "" }

/-! ### Rows of other tables -/

structure ImageRef where
  id : Nat
  workspaceID : Nat
  itemID : String

structure JobRef where
  id : Nat
  workspaceID : Nat
  itemImageID : Nat

structure RunRef where
  sessionID : String
  workspaceID : Nat
  itemImageID : Nat

structure Directory where
  workspaces : List Nat
  items : List (Nat × String)
  images : List ImageRef
  jobs : List JobRef
  runs : List RunRef

namespace Directory

variable (directory : Directory) (workspaceID : Nat)

def hasImage (itemImageID : Nat) : Bool :=
  directory.images.any fun image => image.id = itemImageID && image.workspaceID = workspaceID

def hasJob (jobID : Nat) : Bool :=
  directory.jobs.any fun job => job.id = jobID && job.workspaceID = workspaceID

def imageOfItem (itemImageID : Nat) (itemID : String) : Bool :=
  directory.images.any fun image =>
    image.id = itemImageID && image.workspaceID = workspaceID && image.itemID = itemID

/-- The conditions of `CompleteExternalRequestManual` on other tables: every part of the result that
is given belongs to the workspace, and the parts belong together. -/
def owns (result : RequestResult) : Bool :=
  result.itemID.all (fun item => directory.items.any fun row => row.1 = workspaceID && row.2 = item) &&
  result.itemImageID.all (fun image => directory.images.any fun row =>
    row.workspaceID = workspaceID && row.id = image && result.itemID.all (row.itemID = ·)) &&
  result.transcriptionJobID.all (fun job => directory.jobs.any fun row =>
    row.workspaceID = workspaceID && row.id = job && result.itemImageID.all (row.itemImageID = ·)) &&
  result.sessionID.all (fun session => directory.runs.any fun row =>
    row.workspaceID = workspaceID && row.sessionID = session &&
      result.itemImageID.all (row.itemImageID = ·)) &&
  result.itemID.all (fun item => result.transcriptionJobID.all fun job => directory.jobs.any fun row =>
    row.workspaceID = workspaceID && row.id = job &&
      directory.imageOfItem workspaceID row.itemImageID item) &&
  result.itemID.all (fun item => result.sessionID.all fun session => directory.runs.any fun row =>
    row.workspaceID = workspaceID && row.sessionID = session &&
      directory.imageOfItem workspaceID row.itemImageID item) &&
  result.transcriptionJobID.all (fun job => result.sessionID.all fun session =>
    directory.jobs.any fun row =>
      row.workspaceID = workspaceID && row.id = job && directory.runs.any fun run =>
        run.workspaceID = row.workspaceID && run.itemImageID = row.itemImageID &&
          run.sessionID = session)

end Directory

def nullableUint64 (value : Nat) : Option Nat :=
  if value = 0 ∨ maxInt64 < value then none else some value

/-! ### Reservation -/

def externalRequestMaxAttempts : Nat := 3

def isLowerHex (c : Char) : Bool := ('0' ≤ c && c ≤ '9') || ('a' ≤ c && c ≤ 'f')

def isRequestHash (hash : String) : Bool := hash.utf8ByteSize = 64 && hash.toList.all isLowerHex

def requestSource (source : String) : String :=
  if Go.trimSpace source = "" then "external" else Go.trimSpace source

def after (now : Clock) (time : Nat) : Bool := time * 1000000 < now

def staleExternalRequest (now : Clock) (row : RequestRow) : Bool :=
  row.status = .inProgress && row.leaseUntil.any (after now) &&
    row.attemptCount < row.maxAttempts

def exhaustedExternalRequest (now : Clock) (row : RequestRow) : Bool :=
  row.status = .inProgress && row.leaseUntil.any (after now) &&
    row.maxAttempts ≤ row.attemptCount

def failedExternalRequestExhausted (row : RequestRow) : Bool :=
  row.status = .failed && row.maxAttempts ≤ row.attemptCount

structure Reservation where
  workspaceID : Nat
  source : String
  key : String
  requestHash : String
  eventHeader : String
  /-- Zero for a request that is not about an image yet. -/
  itemImageID : Nat

def Reservation.address (reservation : Reservation) : RequestKey :=
  ⟨reservation.workspaceID, requestSource reservation.source, Go.trimSpace reservation.key⟩

def Reservation.hash (reservation : Reservation) : String := Go.trimSpace reservation.requestHash

def requestLease (now : Clock) : Nat := datetime (now + minutes 10)

def freshRequest (now : Clock) (key : RequestKey) (hash : String) (reservation : Reservation)
    (lockedBy : LeaseToken) (id : Nat) : RequestRow :=
  { id := id, workspaceID := key.workspaceID, source := key.source,
    idempotencyKey := key.idempotencyKey, requestHash := hash, status := .inProgress,
    result := ⟨none, nullableUint64 reservation.itemImageID, none, none⟩,
    eventHeader := nullableString reservation.eventHeader, attemptCount := 1,
    maxAttempts := externalRequestMaxAttempts, leaseUntil := some (requestLease now),
    lockedBy := nullableString lockedBy.text, errorMessage := none, updatedAt := seconds now }

/-- The row of a key is inserted when there is none. -/
def insertExternalRequest (now : Clock) (reservation : Reservation) (lockedBy : LeaseToken)
    (requests : Requests) : Requests :=
  if (requestOf reservation.address requests).isSome then requests
  else
    { rows := requests.rows ++ [freshRequest now reservation.address reservation.hash reservation
      lockedBy requests.nextID]
      nextID := requests.nextID + 1 }

/-- What `ReclaimExternalRequestManual` writes. -/
def reclaimed (now : Clock) (reservation : Reservation) (lockedBy : LeaseToken)
    (row : RequestRow) : RequestRow :=
  { row with
    status := .inProgress
    eventHeader := nullableString reservation.eventHeader
    result := ⟨none, (nullableUint64 reservation.itemImageID).or row.result.itemImageID, none, none⟩
    errorMessage := none
    attemptCount := row.attemptCount + 1
    leaseUntil := some (requestLease now)
    lockedBy := nullableString lockedBy.text
    updatedAt := seconds now }

def failedRow (now : Clock) (message : Option String) (row : RequestRow) : RequestRow :=
  { row with
    status := .failed
    errorMessage := message
    leaseUntil := none
    lockedBy := none
    updatedAt := seconds now }

/-- The rows that the owner of a reservation may complete or fail. -/
def reservedBy (key : RequestKey) (lockedBy : Option String) (row : RequestRow) : Bool :=
  row.key = key && row.status = .inProgress && lockedBy.any (row.lockedBy = some ·)

def requireAffectedRow (affected : Nat) : Except StoreError Unit := refuse (affected = 0) .noRows

def failRequest (now : Clock) (key : RequestKey) (lockedBy message : Option String)
    (requests : Requests) : Except StoreError Requests := do
  requireAffectedRow (Table.affected (reservedBy key lockedBy) (failedRow now message) requests.rows)
  pure { requests with
    rows := Table.update (reservedBy key lockedBy) (failedRow now message) requests.rows }

/-- What follows once the row of the key is locked: the request is handed over, or it is reported as
it stands. -/
def reserveLocked (now : Clock) (reservation : Reservation) (lockedBy : LeaseToken) (row : RequestRow)
    (requests : Requests) : Except StoreError ((ExternalRequest × Bool) × Requests) :=
  if row.lockedBy = some lockedBy.text then pure ((externalRequestToStore row, true), requests)
  else if failedExternalRequestExhausted row then pure ((externalRequestToStore row, false), requests)
  else if exhaustedExternalRequest now row then do
    let failed ← failRequest now row.key row.lockedBy
      (nullableString "external request attempts exhausted") requests
    pure (({ externalRequestToStore row with
      status := .failed, errorMessage := "external request attempts exhausted" }, false), failed)
  else if row.status = .failed || staleExternalRequest now row then
    pure (({ externalRequestToStore row with
        status := .inProgress, errorMessage := "", leaseOwner := lockedBy.text,
          attemptCount := row.attemptCount + 1 },
      true),
      { requests with
        rows := Table.update (fun other => other.id = row.id) (reclaimed now reservation lockedBy)
          requests.rows })
  else pure ((externalRequestToStore row, false), requests)

def reserveExternalRequest (now : Clock) (directory : Directory) (reservation : Reservation)
    (lockedBy : LeaseToken) :
    Call Requests (ExternalRequest × Bool) := transaction fun requests => do
  refuse (reservation.workspaceID = 0) (.message "workspace id is required")
  refuse (64 < reservation.address.source.utf8ByteSize)
    (.message "external request source exceeds 64 bytes")
  refuse (reservation.address.idempotencyKey = "") (.message "idempotency key is required")
  refuse (128 < reservation.address.idempotencyKey.utf8ByteSize)
    (.message "idempotency key exceeds 128 bytes")
  refuse (isRequestHash reservation.hash = false)
    (.message "request hash must be a lowercase SHA-256 digest")
  refuse (reservation.workspaceID ∉ directory.workspaces)
    (.wrapped "lock external request workspace" .noRows)
  refuse (reservation.itemImageID ≠ 0 ∧
    directory.hasImage reservation.workspaceID reservation.itemImageID = false) .noRows
  let inserted := insertExternalRequest now reservation lockedBy requests
  let row ← selectExternalRequest reservation.address inserted
  refuse (row.requestHash ≠ reservation.hash) .externalRequestMismatch
  reserveLocked now reservation lockedBy row inserted

/-! ### Completion and failure -/

def completedRow (now : Clock) (result : RequestResult) (row : RequestRow) : RequestRow :=
  { row with
    status := .completed
    result := result
    errorMessage := none
    leaseUntil := none
    lockedBy := none
    updatedAt := seconds now }

def completeRequest (now : Clock) (directory : Directory) (key : RequestKey) (lockedBy : Option String)
    (result : RequestResult) (requests : Requests) : Except StoreError Requests := do
  let selected := fun row => reservedBy key lockedBy row && directory.owns key.workspaceID result
  requireAffectedRow (Table.affected selected (completedRow now result) requests.rows)
  pure { requests with rows := Table.update selected (completedRow now result) requests.rows }

def completeExternalRequest (now : Clock) (directory : Directory) (workspaceID : Nat)
    (source key leaseOwner itemID : String) (itemImageID jobID : Nat) : Call Requests Unit :=
  transaction fun requests => do
    refuse (workspaceID = 0) (.message "complete external request: store and workspace are required")
    let key : RequestKey := ⟨workspaceID, Go.trimSpace source, Go.trimSpace key⟩
    refuse (workspaceID ∉ directory.workspaces)
      (.wrapped "complete external request: lock workspace" .noRows)
    refuse (Go.trimSpace itemID ≠ "" ∧ (workspaceID, Go.trimSpace itemID) ∉ directory.items)
      (.wrapped "complete external request: lock item" .noRows)
    refuse (itemImageID ≠ 0 ∧ directory.hasImage workspaceID itemImageID = false)
      (.wrapped "complete external request: lock item image" .noRows)
    refuse (jobID ≠ 0 ∧ directory.hasJob workspaceID jobID = false)
      (.wrapped "complete external request: lock transcription job" .noRows)
    refuse (requestOf key requests = none) .noRows
    let completed ← completeRequest now directory key (nullableString leaseOwner)
      ⟨nullableString itemID, nullableUint64 itemImageID, nullableUint64 jobID, none⟩ requests
    pure ((), completed)

/-- The message is the category that the failure was reduced to. The source and the key are compared
as they are. -/
def failExternalRequest (now : Clock) (workspaceID : Nat) (source key leaseOwner message : String) :
    Call Requests Unit :=
  autocommit (fun requests =>
    let selected := reservedBy ⟨workspaceID, source, key⟩ (nullableString leaseOwner)
    let failed := failedRow now (nullableString message)
    pure ({ requests with rows := Table.update selected failed requests.rows },
      Table.affected selected failed requests.rows)) requireAffectedRow

/-- The part of an ingest or a reprocessing commit that completes its request. The rest of the
transaction may still fail, and then nothing is kept. -/
def completeWithIngest (now : Clock) (directory : Directory) (workspaceID : Nat)
    (source key leaseOwner : String) (result : RequestResult) (rest : Except StoreError Unit) :
    Call Requests Unit := transaction fun requests => do
  let completed ← completeRequest now directory ⟨workspaceID, Go.trimSpace source, Go.trimSpace key⟩
    (nullableString leaseOwner) result requests
  rest
  pure ((), completed)

end Scribe.Store
