import Mathlib.Data.List.Dedup
import Mathlib.Logic.Function.Basic
import Scribe.Store.Outboxes

/-! Staging an upload against a storage reservation.

A reservation holds capacity for a workspace. Staging binds it to the name of an
upload: the bytes of the upload move from the reserved to the used counters, of the
workspace and of the whole installation, and a cleanup row records them. The last
statement must change exactly one row, and a reservation that an earlier call has
bound already holds the values it writes.
-/

set_option autoImplicit false

namespace Scribe.Store

open Attempt

def maxUint64 : Nat := 2 ^ 64 - 1

structure StorageQuotaLimits where
  maxBytesPerWorkspace : Nat
  maxBytesTotal : Nat
  maxItemsPerWorkspace : Nat
  maxItemsTotal : Nat
  maxImagesPerWorkspace : Nat
  maxImagesTotal : Nat
  reservationTTL : Int

structure StorageQuotaRequest where
  bytes : Nat
  durableBytes : Nat
  items : Nat
  images : Nat
  deriving DecidableEq

structure StorageQuotaUsage where
  uploadBlobBytes : Nat
  databaseBytes : Nat
  items : Nat
  images : Nat
  reservedUploadBlobBytes : Nat
  reservedDatabaseBytes : Nat
  reservedItems : Nat
  reservedImages : Nat
  deriving DecidableEq

structure WorkspaceStorageReservation where
  workspaceID : Nat
  reservedBytes : Nat
  reservedDatabaseBytes : Nat
  reservedItems : Nat
  reservedImages : Nat
  resourceKey : Option String
  expiresAt : Clock
  deriving DecidableEq

/-- The tables, usage and reservations by their primary keys. Workspace zero is the whole
installation. -/
structure QuotaTables where
  usage : Nat → Option StorageQuotaUsage
  reservations : String → Option WorkspaceStorageReservation
  cleanups : ResourceCleanups

/-! ## Checks -/

def addUint64 (left right : Nat) : Option Nat :=
  if right > maxUint64 - left then none else some (left + right)

def exceedsStorageLimit (used reserved requested limit : Nat) : Prop :=
  used > limit ∨ reserved > limit - used ∨ requested > limit - used - reserved

instance (used reserved requested limit : Nat) :
    Decidable (exceedsStorageLimit used reserved requested limit) :=
  inferInstanceAs (Decidable (_ ∨ _))

def quotaExceeded (text : String) : StoreError := .wrapped "storage quota exceeded" (.message text)

def validateStorageQuotaLimits (limits : StorageQuotaLimits) : Except StoreError Unit :=
  refuse (limits.maxBytesPerWorkspace = 0 ∨ limits.maxBytesTotal < limits.maxBytesPerWorkspace ∨
    limits.maxItemsPerWorkspace = 0 ∨ limits.maxItemsTotal < limits.maxItemsPerWorkspace ∨
    limits.maxImagesPerWorkspace = 0 ∨ limits.maxImagesTotal < limits.maxImagesPerWorkspace ∨
    limits.reservationTTL ≤ 0) (.message "storage quota limits are invalid")

def storageQuotaRequestEmpty (request : StorageQuotaRequest) : Prop :=
  request.bytes = 0 ∧ request.durableBytes = 0 ∧ request.items = 0 ∧ request.images = 0

instance (request : StorageQuotaRequest) : Decidable (storageQuotaRequestEmpty request) :=
  inferInstanceAs (Decidable (_ ∧ _))

def summed (left right : Nat) (cause : StoreError) : Except StoreError Nat :=
  match addUint64 left right with
  | some sum => pure sum
  | none => throw cause

def checkStorageQuotaCounters (global workspace : StorageQuotaUsage) (request : StorageQuotaRequest)
    (limits : StorageQuotaLimits) : Except StoreError Unit := do
  let workspaceUsed ← summed workspace.uploadBlobBytes workspace.databaseBytes
    (quotaExceeded "workspace byte accounting overflow")
  let workspaceReserved ← summed workspace.reservedUploadBlobBytes workspace.reservedDatabaseBytes
    (quotaExceeded "workspace reserved byte accounting overflow")
  let globalUsed ← summed global.uploadBlobBytes global.databaseBytes
    (quotaExceeded "global byte accounting overflow")
  let globalReserved ← summed global.reservedUploadBlobBytes global.reservedDatabaseBytes
    (quotaExceeded "global reserved byte accounting overflow")
  let requestedBytes ← summed request.bytes request.durableBytes
    (quotaExceeded "requested byte accounting overflow")
  let exhausted (name : String) := quotaExceeded (name ++ " capacity is exhausted")
  refuse (exceedsStorageLimit workspaceUsed workspaceReserved requestedBytes
    limits.maxBytesPerWorkspace)
    (exhausted "workspace bytes")
  refuse (exceedsStorageLimit globalUsed globalReserved requestedBytes limits.maxBytesTotal)
    (exhausted "global bytes")
  refuse (exceedsStorageLimit workspace.items workspace.reservedItems request.items
    limits.maxItemsPerWorkspace)
    (exhausted "workspace items")
  refuse (exceedsStorageLimit global.items global.reservedItems request.items limits.maxItemsTotal)
    (exhausted "global items")
  refuse (exceedsStorageLimit workspace.images workspace.reservedImages request.images
    limits.maxImagesPerWorkspace)
    (exhausted "workspace images")
  refuse (exceedsStorageLimit global.images global.reservedImages request.images limits.maxImagesTotal)
    (exhausted "global images")

def Covers (usage : StorageQuotaUsage) (request : StorageQuotaRequest) : Prop :=
  request.bytes ≤ usage.reservedUploadBlobBytes ∧ request.durableBytes ≤ usage.reservedDatabaseBytes ∧
    request.items ≤ usage.reservedItems ∧ request.images ≤ usage.reservedImages

instance (usage : StorageQuotaUsage) (request : StorageQuotaRequest) :
    Decidable (Covers usage request) :=
  inferInstanceAs (Decidable (_ ∧ _))

def adjustUsage (current usedAddition : StorageQuotaRequest) (usage : StorageQuotaUsage) :
    Except StoreError StorageQuotaUsage := do
  refuse (¬ Covers usage current) (.message "storage quota reservation counters are inconsistent")
  let uploadBlobBytes ← summed usage.uploadBlobBytes usedAddition.bytes
    (.message "storage quota upload accounting overflow")
  let databaseBytes ← summed usage.databaseBytes usedAddition.durableBytes
    (.message "storage quota database accounting overflow")
  let items ← summed usage.items usedAddition.items (.message "storage quota item accounting overflow")
  let images ← summed usage.images usedAddition.images
    (.message "storage quota image accounting overflow")
  return {
    uploadBlobBytes, databaseBytes, items, images
    reservedUploadBlobBytes := usage.reservedUploadBlobBytes - current.bytes
    reservedDatabaseBytes := usage.reservedDatabaseBytes - current.durableBytes
    reservedItems := usage.reservedItems - current.items
    reservedImages := usage.reservedImages - current.images }

def checkStorageQuotaReplacement (global workspace : StorageQuotaUsage)
    (current replacement usedAddition : StorageQuotaRequest) (limits : StorageQuotaLimits) :
    Except StoreError Unit := do
  let globalAdjusted ← adjustUsage current usedAddition global
  let workspaceAdjusted ← adjustUsage current usedAddition workspace
  checkStorageQuotaCounters globalAdjusted workspaceAdjusted replacement limits

/-! ## Statements -/

/-- Update the usage of a workspace and of the installation, and count the rows that change. -/
def updateUsage (workspaceID : Nat) (selected : StorageQuotaUsage → Bool)
    (assign : StorageQuotaUsage → StorageQuotaUsage) (tables : QuotaTables) : QuotaTables × Nat :=
  ({ tables with
      usage := fun key =>
        if key = 0 ∨ key = workspaceID then
          (tables.usage key).map fun row => if selected row then assign row else row
        else tables.usage key },
    [0, workspaceID].dedup.countP fun key => (tables.usage key).any fun row =>
      selected row && assign row != row)

def addStorageQuotaUsed (workspaceID : Nat) (request : StorageQuotaRequest) (tables : QuotaTables) :
    QuotaTables :=
  (updateUsage workspaceID (fun _ => true) (fun row => { row with
    uploadBlobBytes := row.uploadBlobBytes + request.bytes
    databaseBytes := row.databaseBytes + request.durableBytes
    items := row.items + request.items
    images := row.images + request.images }) tables).1

def addStorageQuotaReserved (workspaceID : Nat) (request : StorageQuotaRequest)
    (tables : QuotaTables) : QuotaTables :=
  (updateUsage workspaceID (fun _ => true) (fun row => { row with
    reservedUploadBlobBytes := row.reservedUploadBlobBytes + request.bytes
    reservedDatabaseBytes := row.reservedDatabaseBytes + request.durableBytes
    reservedItems := row.reservedItems + request.items
    reservedImages := row.reservedImages + request.images }) tables).1

def lessReserved (request : StorageQuotaRequest) (row : StorageQuotaUsage) : StorageQuotaUsage :=
  { row with
    reservedUploadBlobBytes := row.reservedUploadBlobBytes - request.bytes
    reservedDatabaseBytes := row.reservedDatabaseBytes - request.durableBytes
    reservedItems := row.reservedItems - request.items
    reservedImages := row.reservedImages - request.images }

def requireQuotaUsageRows (affected : Nat) : Except StoreError Unit :=
  refuse (affected ≠ 2)
    (.message ("storage quota usage changed " ++ Nat.repr affected ++
      " rows, want global and workspace"))

def subtractStorageQuotaReserved (workspaceID : Nat) (request : StorageQuotaRequest)
    (tables : QuotaTables) : Except StoreError QuotaTables := do
  if storageQuotaRequestEmpty request then return tables
  let (next, affected) :=
    updateUsage workspaceID (fun row => Covers row request) (lessReserved request) tables
  requireQuotaUsageRows affected
  return next

def replaceStorageQuotaReservationAccounting (workspaceID : Nat)
    (current replacement usedAddition : StorageQuotaRequest) (tables : QuotaTables) :
    Except StoreError QuotaTables := do
  let tables ← subtractStorageQuotaReserved workspaceID current tables
  let tables := if storageQuotaRequestEmpty replacement then tables
    else addStorageQuotaReserved workspaceID replacement tables
  return if storageQuotaRequestEmpty usedAddition then tables
    else addStorageQuotaUsed workspaceID usedAddition tables

def uploadCleanup (tables : QuotaTables) (resourceKey : String) : Option ResourceCleanup :=
  Outbox.rowOf (.uploadBlob, resourceKey) tables.cleanups.rows

/-- The staged upload of a workspace that may still be referenced. -/
def lockUploadCleanupForReference (workspaceID : Nat) (resourceKey : String) (tables : QuotaTables) :
    Except StoreError (Option ResourceCleanup) :=
  match uploadCleanup tables resourceKey with
  | none => return none
  | some cleanup => do
      refuse (cleanup.body.workspaceID ≠ workspaceID)
        (.message "immutable upload identity belongs to another workspace")
      refuse (cleanup.body.deleteFencedAt.isSome) (.message "upload blob identity is retired")
      return some cleanup

def boundTo (resourceKey : String) (row : WorkspaceStorageReservation) : WorkspaceStorageReservation :=
  { row with reservedBytes := 0, resourceKey := some resourceKey }

def bindStorageQuotaReservationResource (id : String) (workspaceID : Nat) (resourceKey : String)
    (tables : QuotaTables) : QuotaTables × Nat :=
  match tables.reservations id with
  | some row =>
      if row.workspaceID = workspaceID then
        ({ tables with reservations :=
          Function.update tables.reservations id (some (boundTo resourceKey row)) },
            if boundTo resourceKey row = row then 0 else 1)
      else (tables, 0)
  | none => (tables, 0)

def storageQuotaRequestFromReservation (row : WorkspaceStorageReservation) : StorageQuotaRequest :=
  ⟨row.reservedBytes, row.reservedDatabaseBytes, row.reservedItems, row.reservedImages⟩

def lockStorageQuotaUsage (workspaceID : Nat) (tables : QuotaTables) :
    Except StoreError StorageQuotaUsage :=
  match tables.usage workspaceID with
  | some row => pure row
  | none => throw .noRows

def lockLiveStorageQuotaReservation (now : Clock) (id : String) (workspaceID : Nat)
    (tables : QuotaTables) : Except StoreError WorkspaceStorageReservation :=
  match tables.reservations id with
  | some row => if row.workspaceID = workspaceID ∧ row.expiresAt > now then pure row else throw .noRows
  | none => throw .noRows

/-- What a staged upload adds to the bytes in use. -/
def usedBytesAdded (staged : Option ResourceCleanup) (storageBytes : Nat) : Nat :=
  match staged with
  | some existing =>
      if existing.body.storageBytes ≥ storageBytes then 0
      else storageBytes - existing.body.storageBytes
  | none => storageBytes

section
variable (immutableNameFromURL : String → Option String)

def stageStorageQuotaUpload (now : Clock) (id : String) (workspaceID : Nat) (imageURL : String)
    (storageBytes : Nat) (limits : StorageQuotaLimits) : Call QuotaTables Unit :=
  transaction fun tables => do
  refuse (workspaceID = 0 ∨ id = "" ∨ storageBytes = 0)
    (.message "stage storage quota upload: reservation and bytes are required")
  validateStorageQuotaLimits limits
  match immutableNameFromURL imageURL with
  | none => throw (.message "stage storage quota upload: immutable upload URL is invalid")
  | some resourceKey =>
      let workspace ← within "stage storage quota upload: lock workspace storage quota usage"
        (lockStorageQuotaUsage workspaceID tables)
      let row ← within "stage storage quota upload: load reservation"
        (lockLiveStorageQuotaReservation now id workspaceID tables)
      refuse (row.resourceKey.isSome ∧ row.resourceKey ≠ some resourceKey)
        (.message "stage storage quota upload: reservation is already bound")
      let current := storageQuotaRequestFromReservation row
      let newReserved := { current with bytes := 0 }
      let staged ← within "stage storage quota upload: inspect cleanup identity"
        (lockUploadCleanupForReference workspaceID resourceKey tables)
      let usedAddition : StorageQuotaRequest := ⟨usedBytesAdded staged storageBytes, 0, 0, 0⟩
      let global ← within "stage storage quota upload: lock global storage usage"
        (lockStorageQuotaUsage 0 tables)
      within "stage storage quota upload" (checkStorageQuotaReplacement global workspace current
        newReserved usedAddition limits)
      let tables := { tables with
        cleanups := upsertResourceCleanup now .uploadBlob resourceKey workspaceID storageBytes
          row.expiresAt tables.cleanups }
      let tables ← within "stage storage quota upload"
        (replaceStorageQuotaReservationAccounting workspaceID current newReserved usedAddition tables)
      let (tables, affected) := bindStorageQuotaReservationResource id workspaceID resourceKey tables
      within "stage storage quota upload: bind reservation" (requireOneAffected affected)
      return ((), tables)

end

/-! ## The accounting -/

theorem covers_of_adjustUsage {current used : StorageQuotaRequest} {usage adjusted : StorageQuotaUsage}
    (done : adjustUsage current used usage = .ok adjusted) : Covers usage current := by
  obtain ⟨_, covered, -⟩ := bind_ok_iff.mp done
  simpa using covered

theorem covers_of_check {global workspace : StorageQuotaUsage}
    {current replacement used : StorageQuotaRequest} {limits : StorageQuotaLimits}
    (fits : checkStorageQuotaReplacement global workspace current replacement used limits = .ok ()) :
    Covers global current ∧ Covers workspace current := by
  obtain ⟨_, globally, fits⟩ := bind_ok_iff.mp fits
  obtain ⟨_, locally, -⟩ := bind_ok_iff.mp fits
  exact ⟨covers_of_adjustUsage globally, covers_of_adjustUsage locally⟩

theorem lessReserved_of_empty {request : StorageQuotaRequest}
    (empty : storageQuotaRequestEmpty request) (row : StorageQuotaUsage) :
    lessReserved request row = row := by
  obtain ⟨bytes, durable, items, images⟩ := empty
  simp [lessReserved, bytes, durable, items, images]

theorem lessReserved_ne {request : StorageQuotaRequest} (filled : ¬ storageQuotaRequestEmpty request)
    {row : StorageQuotaUsage} (covers : Covers row request) : lessReserved request row ≠ row := by
  intro same
  obtain ⟨bytes, durable, items, images⟩ := covers
  have fields := congrArg (fun row : StorageQuotaUsage =>
    (row.reservedUploadBlobBytes, row.reservedDatabaseBytes, row.reservedItems,
      row.reservedImages)) same
  simp only [lessReserved, Prod.mk.injEq] at fields
  refine filled ⟨?_, ?_, ?_, ?_⟩ <;> omega

def mapUsage (workspaceID : Nat) (assign : StorageQuotaUsage → StorageQuotaUsage)
    (tables : QuotaTables) : QuotaTables :=
  { tables with
    usage := fun key => if key = 0 ∨ key = workspaceID then (tables.usage key).map assign
      else tables.usage key }

theorem mapUsage_congr {workspaceID : Nat} {tables : QuotaTables}
    {one other : StorageQuotaUsage → StorageQuotaUsage}
    (same : ∀ key row, key = 0 ∨ key = workspaceID → tables.usage key = some row →
      one row = other row) :
    mapUsage workspaceID one tables = mapUsage workspaceID other tables := by
  have usage : (mapUsage workspaceID one tables).usage =
      (mapUsage workspaceID other tables).usage := by
    funext key
    simp only [mapUsage]
    split
    · rename_i named
      cases found : tables.usage key with
      | none => rfl
      | some row => exact congrArg some (same key row named found)
    · rfl
  simp only [mapUsage] at usage ⊢
  rw [usage]

theorem mapUsage_mapUsage (workspaceID : Nat) (first second : StorageQuotaUsage → StorageQuotaUsage)
    (tables : QuotaTables) :
    mapUsage workspaceID second (mapUsage workspaceID first tables) =
      mapUsage workspaceID (second ∘ first) tables := by
  simp only [mapUsage]
  congr 1
  funext key
  split <;> simp [*]

section
variable {workspaceID : Nat} {tables : QuotaTables} {global workspace : StorageQuotaUsage}
  (tenant : workspaceID ≠ 0) (whole : tables.usage 0 = some global)
  (own : tables.usage workspaceID = some workspace)
include tenant whole own

theorem subtractStorageQuotaReserved_eq {request : StorageQuotaRequest}
    (globally : Covers global request) (locally : Covers workspace request) :
    subtractStorageQuotaReserved workspaceID request tables =
      .ok (mapUsage workspaceID (lessReserved request) tables) := by
  have rows : ∀ key row, key = 0 ∨ key = workspaceID → tables.usage key = some row →
      Covers row request := by
    rintro key row (rfl | rfl) found
    · rw [whole, Option.some.injEq] at found
      exact found ▸ globally
    · rw [own, Option.some.injEq] at found
      exact found ▸ locally
  rw [subtractStorageQuotaReserved]
  by_cases empty : storageQuotaRequestEmpty request
  · rw [if_pos empty]
    have unchanged : mapUsage workspaceID (lessReserved request) tables = tables := by
      have same : mapUsage workspaceID (lessReserved request) tables =
          mapUsage workspaceID id tables :=
        mapUsage_congr fun key row _ _ => lessReserved_of_empty empty row
      rw [same]
      simp [mapUsage]
    rw [unchanged]
    rfl
  · rw [if_neg empty]
    -- Both rows are selected and both change.
    have two : (updateUsage workspaceID (fun row => Covers row request) (lessReserved request)
        tables).2 = 2 := by
      have apart : [0, workspaceID].dedup = [0, workspaceID] :=
        List.dedup_eq_self.mpr (by simpa using tenant.symm)
      simp [updateUsage, apart, whole, own, globally, locally, lessReserved_ne empty globally,
        lessReserved_ne empty locally]
    have mapped :
        (updateUsage workspaceID (fun row => Covers row request) (lessReserved request) tables).1 =
        mapUsage workspaceID (lessReserved request) tables := by
      refine mapUsage_congr fun key row named found => ?_
      simp [rows key row named found]
    simp only [two, mapped, requireQuotaUsageRows, refuse_of_not (not_not.mpr rfl)]
    rfl

theorem replaceAccounting_eq {current : StorageQuotaRequest} (globally : Covers global current)
    (locally : Covers workspace current) (added : Nat) :
    replaceStorageQuotaReservationAccounting workspaceID current { current with bytes := 0 }
      ⟨added, 0, 0, 0⟩ tables =
      .ok (mapUsage workspaceID (fun row => { row with
        uploadBlobBytes := row.uploadBlobBytes + added
        reservedUploadBlobBytes := row.reservedUploadBlobBytes - current.bytes }) tables) := by
  rw [replaceStorageQuotaReservationAccounting,
    subtractStorageQuotaReserved_eq tenant whole own globally locally]
  -- An empty request is skipped by the source; adding it would change nothing.
  have reserved : ∀ tables, (if storageQuotaRequestEmpty { current with bytes := 0 } then tables
      else addStorageQuotaReserved workspaceID { current with bytes := 0 } tables) =
      mapUsage workspaceID (fun row => { row with
        reservedDatabaseBytes := row.reservedDatabaseBytes + current.durableBytes
        reservedItems := row.reservedItems + current.items
        reservedImages := row.reservedImages + current.images }) tables := by
    intro tables
    split
    · rename_i empty
      obtain ⟨-, durable, items, images⟩ := empty
      simp only at durable items images
      simp [mapUsage, durable, items, images]
    · rfl
  have used : ∀ tables, (if storageQuotaRequestEmpty ⟨added, 0, 0, 0⟩ then tables
      else addStorageQuotaUsed workspaceID ⟨added, 0, 0, 0⟩ tables) =
      mapUsage workspaceID (fun row => { row with uploadBlobBytes := row.uploadBlobBytes + added })
          tables := by
    intro tables
    split
    · rename_i empty
      have none : added = 0 := empty.1
      simp [mapUsage, none]
    · rfl
  simp only [bind, Except.bind, pure, Except.pure, reserved, used, mapUsage_mapUsage]
  refine congrArg Except.ok (mapUsage_congr fun key row named found => ?_)
  -- Both rows cover the reservation, so nothing is cut off at zero.
  have covers : Covers row current := by
    rcases named with rfl | rfl
    · rw [whole, Option.some.injEq] at found
      exact found ▸ globally
    · rw [own, Option.some.injEq] at found
      exact found ▸ locally
  obtain ⟨-, durable, items, images⟩ := covers
  simp only [Function.comp_apply, lessReserved]
  congr 1 <;> omega

end

/-! ## Staging a staged upload -/

/-- A live reservation that is not bound to another upload, a staged upload that is not retired, and
limits that admit the additional bytes. -/
structure Restaging (immutableNameFromURL : String → Option String) (tables : QuotaTables)
    (now : Clock) (id : String) (workspaceID : Nat) (imageURL : String) (storageBytes : Nat)
    (limits : StorageQuotaLimits) (resourceKey : String) (row : WorkspaceStorageReservation)
    (staged : ResourceCleanup) (global workspace : StorageQuotaUsage) : Prop where
  tenant : workspaceID ≠ 0
  identified : id ≠ ""
  bytes : storageBytes ≠ 0
  limited : validateStorageQuotaLimits limits = .ok ()
  named : immutableNameFromURL imageURL = some resourceKey
  whole : tables.usage 0 = some global
  own : tables.usage workspaceID = some workspace
  reserved : tables.reservations id = some row
  owned : row.workspaceID = workspaceID
  live : row.expiresAt > now
  unbound : row.resourceKey = none ∨ row.resourceKey = some resourceKey
  found : uploadCleanup tables resourceKey = some staged
  cleanupOwned : staged.body.workspaceID = workspaceID
  unfenced : staged.body.deleteFencedAt = none
  fits : checkStorageQuotaReplacement global workspace (storageQuotaRequestFromReservation row)
    { storageQuotaRequestFromReservation row with bytes := 0 }
    ⟨storageBytes - staged.body.storageBytes, 0, 0, 0⟩ limits = .ok ()

def stagedTables (now : Clock) (id : String) (workspaceID storageBytes : Nat) (resourceKey : String)
    (row : WorkspaceStorageReservation) (staged : ResourceCleanup) (tables : QuotaTables) :
    QuotaTables :=
  let tables := { tables with
    cleanups := upsertResourceCleanup now .uploadBlob resourceKey workspaceID storageBytes
      row.expiresAt tables.cleanups }
  let tables := mapUsage workspaceID (fun usage => { usage with
    uploadBlobBytes := usage.uploadBlobBytes + (storageBytes - staged.body.storageBytes)
    reservedUploadBlobBytes := usage.reservedUploadBlobBytes - row.reservedBytes }) tables
  { tables with reservations :=
    Function.update tables.reservations id (some (boundTo resourceKey row)) }

theorem usedBytesAdded_staged (staged : ResourceCleanup) (storageBytes : Nat) :
    usedBytesAdded (some staged) storageBytes = storageBytes - staged.body.storageBytes := by
  rw [usedBytesAdded]
  split
  · omega
  · rfl

theorem boundTo_eq_iff {resourceKey : String} {row : WorkspaceStorageReservation} :
    boundTo resourceKey row = row ↔ row.reservedBytes = 0 ∧ row.resourceKey = some resourceKey := by
  constructor
  · intro same
    have fields :=
      congrArg (fun row : WorkspaceStorageReservation => (row.reservedBytes, row.resourceKey)) same
    simp only [boundTo, Prod.mk.injEq] at fields
    exact ⟨fields.1.symm, fields.2.symm⟩
  · rintro ⟨bytes, bound⟩
    cases row
    simp only at bytes bound
    simp [boundTo, bytes, bound]

section
variable {immutableNameFromURL : String → Option String} {tables : QuotaTables}
  {now : Clock} {id : String} {workspaceID : Nat} {imageURL : String} {storageBytes : Nat}
  {limits : StorageQuotaLimits} {resourceKey : String} {row : WorkspaceStorageReservation}
  {staged : ResourceCleanup} {global workspace : StorageQuotaUsage}
  (again : Restaging immutableNameFromURL tables now id workspaceID imageURL storageBytes limits
    resourceKey row staged
    global workspace)
include again

/-- Every statement but the last succeeds; the last one changes a row unless the reservation is
bound already. -/
theorem stageStorageQuotaUpload_eq :
    stageStorageQuotaUpload immutableNameFromURL now id workspaceID imageURL storageBytes
      limits tables =
      if boundTo resourceKey row = row then
        (.error (.wrapped "stage storage quota upload: bind reservation" .noRows), tables)
      else (.ok (), stagedTables now id workspaceID storageBytes resourceKey row staged tables) := by
  obtain ⟨globally, locally⟩ := covers_of_check again.fits
  have present : ¬ (workspaceID = 0 ∨ id = "" ∨ storageBytes = 0) := by
    simp [again.tenant, again.identified, again.bytes]
  have free : ¬ (row.resourceKey.isSome ∧ row.resourceKey ≠ some resourceKey) := by
    rcases again.unbound with none | bound
    · simp [none]
    · simp [bound]
  have liveRow : lockLiveStorageQuotaReservation now id workspaceID tables = .ok row := by
    simp only [lockLiveStorageQuotaReservation, again.reserved, again.owned, again.live,
      and_self, if_true]
    rfl
  have stagedRow : lockUploadCleanupForReference workspaceID resourceKey tables =
      .ok (some staged) := by
    simp only [lockUploadCleanupForReference, again.found]
    rw [refuse_of_not (not_not.mpr again.cleanupOwned), refuse_of_not (by simp [again.unfenced])]
    rfl
  have accounted := @replaceAccounting_eq workspaceID { tables with
      cleanups := upsertResourceCleanup now .uploadBlob resourceKey workspaceID storageBytes
        row.expiresAt tables.cleanups }
    global workspace again.tenant again.whole again.own _ globally locally
      (storageBytes - staged.body.storageBytes)
  have usageRow : lockStorageQuotaUsage workspaceID tables = .ok workspace := by
    simp only [lockStorageQuotaUsage, again.own]
    rfl
  have globalRow : lockStorageQuotaUsage 0 tables = .ok global := by
    simp only [lockStorageQuotaUsage, again.whole]
    rfl
  simp only [stageStorageQuotaUpload, transaction, refuse_of_not present, again.limited,
    again.named, usageRow, liveRow, refuse_of_not free, stagedRow,
    globalRow, usedBytesAdded_staged, again.fits, accounted, bind, Except.bind,
    within, Except.mapError]
  simp only [bindStorageQuotaReservationResource, mapUsage, again.reserved, again.owned, if_true]
  by_cases same : boundTo resourceKey row = row
  · simp only [same, if_true, requireOneAffected, refuse_of (show (0 : Nat) ≠ 1 by decide)]
  · simp only [same, if_false, requireOneAffected, refuse_of_not (show ¬ (1 : Nat) ≠ 1 by decide)]
    rfl

/-- What staging should do: only the bytes in use grow, by what the cleanup row did not record, and
the reserved bytes of the reservation become those of the upload. -/
structure Staged (now : Clock) (id : String) (workspaceID storageBytes : Nat) (resourceKey : String)
    (row : WorkspaceStorageReservation) (staged : ResourceCleanup)
    (tables next : QuotaTables) : Prop where
  usage : ∀ key, next.usage key =
    if key = 0 ∨ key = workspaceID then (tables.usage key).map fun usage => { usage with
      uploadBlobBytes := usage.uploadBlobBytes + (storageBytes - staged.body.storageBytes)
      reservedUploadBlobBytes := usage.reservedUploadBlobBytes - row.reservedBytes }
    else tables.usage key
  reservation : next.reservations id = some (boundTo resourceKey row)
  reservations : ∀ other, other ≠ id → next.reservations other = tables.reservations other
  cleanup : ∃ after, uploadCleanup next resourceKey = some after ∧
    after.body.storageBytes = max staged.body.storageBytes storageBytes ∧
    after.body.workspaceID = workspaceID ∧
    after.body.deleteFencedAt = none

theorem stagedTables_staged :
    Staged now id workspaceID storageBytes resourceKey row staged tables
      (stagedTables now id workspaceID storageBytes resourceKey row staged tables) where
  usage key := rfl
  reservation := Function.update_self ..
  reservations other apart := Function.update_of_ne apart ..
  cleanup := by
    refine ⟨_, Outbox.rowOf_upsert_some (fun row => rfl) again.found, rfl, ?_, again.unfenced⟩
    simp [Nat.pos_of_ne_zero again.tenant]

/-- Staging an upload that is staged succeeds as it should exactly when no earlier call has bound
the reservation. -/
theorem stage_again_iff :
    (∃ next, stageStorageQuotaUpload immutableNameFromURL now id workspaceID imageURL storageBytes
      limits tables =
        (.ok (), next) ∧ Staged now id workspaceID storageBytes resourceKey row staged tables next) ↔
      ¬ (row.reservedBytes = 0 ∧ row.resourceKey = some resourceKey) := by
  rw [stageStorageQuotaUpload_eq again, ← boundTo_eq_iff]
  by_cases same : boundTo resourceKey row = row
  · simp [same]
  · simp only [same, if_false, not_false_eq_true, iff_true]
    exact ⟨_, rfl, stagedTables_staged again⟩

end

theorem bindStorageQuotaReservationResource_one {id : String} {workspaceID : Nat}
    {resourceKey : String} {tables after : QuotaTables}
    (bound : bindStorageQuotaReservationResource id workspaceID resourceKey tables = (after, 1)) :
    ∃ row, after.reservations id = some (boundTo resourceKey row) := by
  rw [bindStorageQuotaReservationResource] at bound
  split at bound
  · rename_i row _
    split at bound
    · obtain ⟨rfl, -⟩ := Prod.mk.inj bound
      exact ⟨row, Function.update_self ..⟩
    · cases (Prod.mk.inj bound).2
  · cases (Prod.mk.inj bound).2

/-- A call that succeeds leaves the reservation bound and without reserved bytes, so no later call
for the same upload succeeds while the row stays as it is. -/
theorem stage_binds {immutableNameFromURL : String → Option String}
    {tables next : QuotaTables} {now : Clock} {id : String} {workspaceID : Nat} {imageURL : String}
    {storageBytes : Nat} {limits : StorageQuotaLimits}
    (done : stageStorageQuotaUpload immutableNameFromURL now id workspaceID imageURL storageBytes
      limits tables =
      (.ok (), next)) :
    ∃ row resourceKey, immutableNameFromURL imageURL = some resourceKey ∧
      next.reservations id = some row ∧
      row.reservedBytes = 0 ∧ row.resourceKey = some resourceKey := by
  have body := transaction_ok_iff.mp done
  obtain ⟨-, -, body⟩ := bind_ok_iff.mp body
  obtain ⟨-, -, body⟩ := bind_ok_iff.mp body
  split at body
  · exact absurd body throw_ne_ok
  rename_i resourceKey named
  -- Of the statements only the last one writes the reservation.
  obtain ⟨_, _, body⟩ := bind_ok_iff.mp body
  obtain ⟨_, _, body⟩ := bind_ok_iff.mp body
  obtain ⟨_, _, body⟩ := bind_ok_iff.mp body
  obtain ⟨_, _, body⟩ := bind_ok_iff.mp body
  obtain ⟨_, _, body⟩ := bind_ok_iff.mp body
  obtain ⟨_, _, body⟩ := bind_ok_iff.mp body
  obtain ⟨accounted, _, body⟩ := bind_ok_iff.mp body
  rcases bound : bindStorageQuotaReservationResource id workspaceID resourceKey accounted with
      ⟨after, affected⟩
  rw [bound] at body
  obtain ⟨_, one, body⟩ := bind_ok_iff.mp body
  rw [within_ok_iff, requireOneAffected_ok_iff] at one
  have isNext : after = next := congrArg Prod.snd (pure_ok_iff.mp body)
  obtain ⟨row, found⟩ := bindStorageQuotaReservationResource_one (one ▸ bound)
  exact ⟨boundTo resourceKey row, resourceKey, named, isNext ▸ found, rfl, rfl⟩

def oneReservation (reservedBytes : Nat) (cleanups : List ResourceCleanup) : QuotaTables where
  usage key := if key ≤ 1 then some ⟨0, 0, 0, 0, reservedBytes, 0, 1, 1⟩ else none
  reservations id := if id = "r" then some ⟨1, reservedBytes, 0, 1, 1, none, 10⟩ else none
  cleanups := ⟨cleanups, cleanups.length + 1⟩

def wideLimits : StorageQuotaLimits := ⟨100, 100, 100, 100, 100, 100, 1⟩

def leftCleanup : ResourceCleanup :=
  ⟨(.uploadBlob, "u"), 1, 1, ⟨1, 40, none⟩, .pending, 0, 20, 5, none, none, none, 0⟩

theorem stage_left_upload :
    ∃ next, stageStorageQuotaUpload some 0 "r" 1 "u" 60 wideLimits
      (oneReservation 60 [leftCleanup]) = (.ok (), next) ∧
      Staged 0 "r" 1 60 "u" ⟨1, 60, 0, 1, 1, none, 10⟩ leftCleanup
        (oneReservation 60 [leftCleanup]) next :=
  have again : Restaging some (oneReservation 60 [leftCleanup]) 0 "r" 1 "u" 60 wideLimits "u"
      ⟨1, 60, 0, 1, 1, none, 10⟩ leftCleanup ⟨0, 0, 0, 0, 60, 0, 1, 1⟩ ⟨0, 0, 0, 0, 60, 0, 1, 1⟩ := {
    tenant := by decide, identified := by decide, bytes := by decide, limited := by rfl,
    named := rfl, whole := rfl, own := rfl, reserved := rfl, owned := rfl, live := by decide,
    unbound := .inl rfl, found := by rfl, cleanupOwned := rfl, unfenced := rfl, fits := by rfl }
  (stage_again_iff again).mpr (by decide)

/-- The second of two equal calls fails: its last statement changes no row. -/
theorem stage_twice_fails :
    (stageStorageQuotaUpload some 0 "r" 1 "u" 60 wideLimits (oneReservation 60 [])).1 = .ok () ∧
    (stageStorageQuotaUpload some 0 "r" 1 "u" 60 wideLimits
      (stageStorageQuotaUpload some 0 "r" 1 "u" 60 wideLimits (oneReservation 60 [])).2).1 =
        .error (.wrapped "stage storage quota upload: bind reservation" .noRows) := by
  decide +kernel

end Scribe.Store
