import Scribe.Data.Outbox
import Scribe.Store.Database

/-! The outboxes of work on remote resources.

`annotation_mirror_outbox` holds one row per published image, fenced by the published
revision. `resource_cleanup_outbox` holds one row per resource, fenced by a generation
that every new request for the resource advances.
-/

set_option autoImplicit false

namespace Scribe.Store

open Attempt (refuse)

/-- The columns a table leaves to their defaults. -/
def outboxMaxAttempts : Nat := 20

def thirtySeconds : Clock := 30 * 1000000

/-- A lease duration in microseconds; one that is not positive stands for thirty seconds. -/
def deliveryLease (now : Clock) (leaseDuration : Int) : Nat :=
  datetime (now + if leaseDuration ≤ 0 then thirtySeconds else leaseDuration.toNat)

/-! ### Mirrors of published pages -/

abbrev AnnotationMirror := Outbox.Row Nat String

structure AnnotationMirrorDelivery where
  itemImageID : Nat
  revision : Nat
  payload : String
  leaseOwner : String
  attempt : Nat
  maxAttempts : Nat
  deriving DecidableEq

def AnnotationMirrorDelivery.ticket (delivery : AnnotationMirrorDelivery) : Outbox.Ticket :=
  ⟨delivery.itemImageID, delivery.revision, Go.trimSpace delivery.leaseOwner⟩

def upsertAnnotationMirrorOutbox (now : Clock) (itemImageID revision : Nat) (payload : String) :
    List AnnotationMirror → List AnnotationMirror :=
  Outbox.upsert itemImageID
    (fun row =>
      if row.version < revision then
        { row.reenqueued (seconds now) (seconds now) with version := revision, body := payload }
      else row)
    { key := itemImageID, id := itemImageID, version := revision, body := payload,
      status := .pending, attemptCount := 0, maxAttempts := outboxMaxAttempts,
      nextAttemptAt := seconds now, leaseUntil := none, lockedBy := none, lastError := none,
      updatedAt := seconds now }

/-- What `FailExhaustedAnnotationMirrors` writes. -/
def failExhaustedAnnotationMirror (now : Clock) (row : AnnotationMirror) : AnnotationMirror :=
  { row with
    status := .failed
    leaseUntil := none
    lockedBy := none
    lastError := row.lastError.or (some "delivery lease expired after maximum attempts")
    updatedAt := seconds now }

def claimAnnotationMirror (now : Clock) (leaseDuration : Int) (leaseOwner : LeaseToken)
    (locked : Nat → Bool) (rows : List AnnotationMirror) :
    Option AnnotationMirrorDelivery × List AnnotationMirror :=
  let (claimed, after) :=
    Outbox.claim (seconds now) (deliveryLease now leaseDuration) leaseOwner.text locked
    (failExhaustedAnnotationMirror now) rows
  (claimed.map fun row =>
    ⟨row.key, row.version, row.body, leaseOwner.text, row.attemptCount + 1, row.maxAttempts⟩, after)

/-- The rows that the owner of a delivery may write; a blank owner compares with nothing. -/
def deliveredBy (delivery : AnnotationMirrorDelivery) (row : AnnotationMirror) : Bool :=
  Go.trimSpace delivery.leaseOwner ≠ "" && row.heldBy delivery.ticket

def requireMirrorAffected (affected : Nat) : Except StoreError Unit :=
  refuse (affected ≠ 1) .annotationMirrorLease

def completeAnnotationMirror (delivery : AnnotationMirrorDelivery) :
    Call (List AnnotationMirror) Unit :=
  autocommit (fun rows => pure (Table.delete (deliveredBy delivery) rows,
    rows.countP (deliveredBy delivery)))
    requireMirrorAffected

def retriedAnnotationMirror (now : Clock) (message : String) (nextAttempt : Clock)
    (row : AnnotationMirror) : AnnotationMirror :=
  { row with
    status := if row.maxAttempts ≤ row.attemptCount then .failed else .pending
    nextAttemptAt := datetime nextAttempt
    leaseUntil := none
    lockedBy := none
    lastError := nullableString message
    updatedAt := seconds now }

def retryAnnotationMirror (now : Clock) (delivery : AnnotationMirrorDelivery) (message : String)
    (nextAttempt : Clock) : Call (List AnnotationMirror) Unit :=
  let retried := retriedAnnotationMirror now message nextAttempt
  autocommit (fun rows => pure (Table.update (deliveredBy delivery) retried rows,
    Table.affected (deliveredBy delivery) retried rows)) requireMirrorAffected

/-! ### Cleanups of remote resources -/

inductive ResourceCleanupKind where
  | uploadBlob
  | tripletPresentationImage
  | tripletPresentationItem
  deriving DecidableEq, Repr

structure CleanupBody where
  workspaceID : Nat
  storageBytes : Nat
  deleteFencedAt : Option Nat
  deriving DecidableEq

abbrev ResourceCleanup := Outbox.Row (ResourceCleanupKind × String) CleanupBody

structure ResourceCleanups where
  rows : List ResourceCleanup
  nextID : Nat

structure ResourceCleanupDelivery where
  id : Nat
  kind : ResourceCleanupKind
  resourceKey : String
  workspaceID : Nat
  storageBytes : Nat
  generation : Nat
  leaseOwner : String
  attempt : Nat
  maxAttempts : Nat
  deriving DecidableEq

def ResourceCleanupDelivery.ticket (delivery : ResourceCleanupDelivery) : Outbox.Ticket :=
  ⟨delivery.id, delivery.generation, Go.trimSpace delivery.leaseOwner⟩

def upsertResourceCleanup (now : Clock) (kind : ResourceCleanupKind) (resourceKey : String)
    (workspaceID storageBytes : Nat) (nextAttemptAt : Clock) (cleanups : ResourceCleanups) :
    ResourceCleanups :=
  { rows := Outbox.upsert (kind, resourceKey)
      (fun row =>
        { row.reenqueued (seconds now) (datetime nextAttemptAt) with
          version := row.version + 1
          body := { row.body with
            workspaceID := if 0 < workspaceID then workspaceID else row.body.workspaceID
            storageBytes := max row.body.storageBytes storageBytes } })
      { key := (kind, resourceKey), id := cleanups.nextID, version := 1,
        body := ⟨workspaceID, storageBytes, none⟩, status := .pending, attemptCount := 0,
        maxAttempts := outboxMaxAttempts, nextAttemptAt := datetime nextAttemptAt,
        leaseUntil := none, lockedBy := none, lastError := none, updatedAt := seconds now }
      cleanups.rows
    nextID := cleanups.nextID + 1 }

/-- What `FailExhaustedResourceCleanups` writes: the deletion of an upload is never given up. -/
def failExhaustedResourceCleanup (now : Clock) (row : ResourceCleanup) : ResourceCleanup :=
  let isUpload := row.key.1 = .uploadBlob
  { row with
    status := if isUpload then .pending else .failed
    nextAttemptAt := if isUpload then seconds now + 3600 else row.nextAttemptAt
    leaseUntil := none
    lockedBy := none
    lastError :=
      row.lastError.or (some (if isUpload then "cleanup lease expired; another retry is scheduled"
      else "cleanup lease expired after maximum attempts"))
    updatedAt := seconds now }

def claimResourceCleanup (now : Clock) (leaseDuration : Int) (leaseOwner : LeaseToken)
    (locked : ResourceCleanupKind × String → Bool) (cleanups : ResourceCleanups) :
    Option ResourceCleanupDelivery × ResourceCleanups :=
  let (claimed, after) :=
    Outbox.claim (seconds now) (deliveryLease now leaseDuration) leaseOwner.text locked
    (failExhaustedResourceCleanup now) cleanups.rows
  (claimed.map fun row =>
    ⟨row.id, row.key.1, row.key.2, row.body.workspaceID, row.body.storageBytes, row.version,
      leaseOwner.text, row.attemptCount + 1, row.maxAttempts⟩, { cleanups with rows := after })

def cleanedBy (delivery : ResourceCleanupDelivery) (row : ResourceCleanup) : Bool :=
  Go.trimSpace delivery.leaseOwner ≠ "" && row.heldBy delivery.ticket

def fenceUploadResourceCleanup (now : Clock) (delivery : ResourceCleanupDelivery)
    (cleanups : ResourceCleanups) : ResourceCleanups × Nat :=
  let selected := fun row : ResourceCleanup => cleanedBy delivery row && row.key.1 = .uploadBlob
  let fenced := fun row : ResourceCleanup => { row with
    body := { row.body with deleteFencedAt := some (row.body.deleteFencedAt.getD (seconds now)) }
    updatedAt := seconds now }
  ({ cleanups with rows := Table.update selected fenced cleanups.rows },
    Table.affected selected fenced cleanups.rows)

def requireCleanupAffected (affected : Nat) : Except StoreError Unit :=
  refuse (affected ≠ 1) .resourceCleanupLease

def completeResourceCleanup (delivery : ResourceCleanupDelivery) : Call ResourceCleanups Unit :=
  let done := fun row : ResourceCleanup =>
    cleanedBy delivery row && (row.key.1 ≠ .uploadBlob || row.body.deleteFencedAt.isNone)
  autocommit (fun cleanups => pure ({ cleanups with rows := Table.delete done cleanups.rows },
    cleanups.rows.countP done)) requireCleanupAffected

def completeFencedUploadResourceCleanup (delivery : ResourceCleanupDelivery)
    (cleanups : ResourceCleanups) : ResourceCleanups × Nat :=
  let done := fun row : ResourceCleanup =>
    cleanedBy delivery row && row.key.1 = .uploadBlob && row.body.deleteFencedAt.isSome
  ({ cleanups with rows := Table.delete done cleanups.rows }, cleanups.rows.countP done)

def retryResourceCleanup (now : Clock) (delivery : ResourceCleanupDelivery) (message : String)
    (nextAttempt : Clock) : Call ResourceCleanups Unit :=
  let retried := fun row : ResourceCleanup => { row with
    status := if row.key.1 = .uploadBlob then .pending
      else if row.maxAttempts ≤ row.attemptCount then .failed else .pending
    nextAttemptAt := datetime nextAttempt
    leaseUntil := none
    lockedBy := none
    lastError := nullableString message
    updatedAt := seconds now }
  autocommit (fun cleanups =>
    pure ({ cleanups with rows := Table.update (cleanedBy delivery) retried cleanups.rows },
      Table.affected (cleanedBy delivery) retried cleanups.rows)) requireCleanupAffected

end Scribe.Store
