import Scribe.Store.Outboxes

/-! How long a claimed delivery keeps others away from its image or resource.

The outbox is followed together with the delivery that was claimed last and has not
been completed or retried by its owner: the end of its lease, and how often its row
was written anew since the claim.
-/

set_option autoImplicit false

namespace Scribe.Store

open Outbox
open Attempt (refuse_isOk)

/-! ### Calls of the owner of a delivery -/

section Calls

variable {now : Clock} {rows : List AnnotationMirror} {cleanups : ResourceCleanups}

theorem deliveredBy_heldBy {delivery : AnnotationMirrorDelivery} {row : AnnotationMirror}
    (delivered : deliveredBy delivery row = true) : row.heldBy delivery.ticket = true := by
  simp only [deliveredBy, Bool.and_eq_true] at delivered
  exact delivered.2

theorem cleanedBy_heldBy {delivery : ResourceCleanupDelivery} {row : ResourceCleanup}
    (cleaned : cleanedBy delivery row = true) : row.heldBy delivery.ticket = true := by
  simp only [cleanedBy, Bool.and_eq_true] at cleaned
  exact cleaned.2

/-- A row whose delivery is given back really changes, so every selected row is counted. -/
theorem affected_heldBy {κ β : Type} [DecidableEq κ] [DecidableEq β] {selected : Row κ β → Bool}
    {assign : Row κ β → Row κ β} {ticket : Ticket} {rows : List (Row κ β)}
    (holds : ∀ row, selected row = true → row.heldBy ticket = true)
    (unlocks : ∀ row, (assign row).lockedBy = none) :
    Table.affected selected assign rows = rows.countP selected := by
  refine List.countP_congr fun row _ => ?_
  simp only [Bool.and_eq_true, bne_iff_ne, and_iff_left_iff_imp]
  intro chosen same
  have locked := (Row.heldBy_iff.mp (holds row chosen)).2.2.2
  rw [← same, unlocks] at locked
  cases locked

theorem completeAnnotationMirror_isOk (delivery : AnnotationMirrorDelivery) :
    (completeAnnotationMirror delivery rows).1.isOk =
      decide (rows.countP (deliveredBy delivery) = 1) := by
  rw [completeAnnotationMirror, autocommit]
  simp only [pure, Except.pure, requireMirrorAffected, refuse_isOk, ne_eq, not_not]

theorem completeResourceCleanup_isOk (delivery : ResourceCleanupDelivery) :
    (completeResourceCleanup delivery cleanups).1.isOk =
      decide (cleanups.rows.countP (fun row =>
        cleanedBy delivery row && (row.key.1 ≠ .uploadBlob || row.body.deleteFencedAt.isNone)) =
          1) := by
  rw [completeResourceCleanup, autocommit]
  simp only [pure, Except.pure, requireCleanupAffected, refuse_isOk, ne_eq, not_not]

theorem retryAnnotationMirror_isOk (delivery : AnnotationMirrorDelivery) (message : String)
    (nextAttempt : Clock) : (retryAnnotationMirror now delivery message nextAttempt rows).1.isOk =
      decide (rows.countP (deliveredBy delivery) = 1) := by
  simp only [retryAnnotationMirror, autocommit, pure, Except.pure, requireMirrorAffected,
    refuse_isOk, ne_eq, not_not]
  rw [affected_heldBy (fun _ => deliveredBy_heldBy) fun _ => rfl]

theorem retryResourceCleanup_isOk (delivery : ResourceCleanupDelivery) (message : String)
    (nextAttempt : Clock) :
    (retryResourceCleanup now delivery message nextAttempt cleanups).1.isOk =
      decide (cleanups.rows.countP (cleanedBy delivery) = 1) := by
  simp only [retryResourceCleanup, autocommit, pure, Except.pure, requireCleanupAffected,
    refuse_isOk, ne_eq, not_not]
  rw [affected_heldBy (fun _ => cleanedBy_heldBy) fun _ => rfl]

end Calls

theorem forall_seconds_iff {now : Clock} {horizon : Nat} {holds : Nat → Prop} :
    (∀ later, now ≤ later → seconds later < horizon → holds (seconds later)) ↔
      ∀ time, seconds now ≤ time → time < horizon → holds time := by
  constructor
  · intro all time ahead before
    have isTime : seconds (max now (time * 1000000)) = time := by
      simp only [seconds] at ahead ⊢
      omega
    exact isTime ▸ all _ (Nat.le_max_left _ _) (isTime.symm ▸ before)
  · exact fun all later passed => all (seconds later) (seconds_mono passed)

/-! ### Mirrors -/

inductive MirrorEvent where
  | publish (itemImageID revision : Nat) (payload : String)
  | claim (leaseDuration : Int) (leaseOwner : LeaseToken) (locked : Nat → Bool)
  | complete (delivery : AnnotationMirrorDelivery)
  | retry (delivery : AnnotationMirrorDelivery) (message : String) (nextAttempt : Clock)

namespace MirrorEvent

def apply (now : Clock) : MirrorEvent → List AnnotationMirror → List AnnotationMirror
  | publish itemImageID revision payload, rows =>
      upsertAnnotationMirrorOutbox now itemImageID revision payload rows
  | claim leaseDuration leaseOwner locked, rows =>
      (claimAnnotationMirror now leaseDuration leaseOwner locked rows).2
  | complete delivery, rows => (completeAnnotationMirror delivery rows).2
  | retry delivery message nextAttempt, rows =>
      (retryAnnotationMirror now delivery message nextAttempt rows).2

def follow (itemImageID : Nat) (now : Clock) (rows : List AnnotationMirror) (flight : Option Flight) :
    MirrorEvent → Option Flight
  | publish published revision _ =>
    if published = itemImageID ∧ (rowOf itemImageID rows).any (·.version < revision) then
      flight.map (Flight.again (seconds now) (seconds now))
    else flight
  | claim leaseDuration leaseOwner locked =>
    match (claimAnnotationMirror now leaseDuration leaseOwner locked rows).1 with
    | some delivery =>
      if delivery.itemImageID = itemImageID then
        some (Flight.begin delivery.ticket (deliveryLease now leaseDuration))
      else flight
    | none => flight
  | complete delivery => Flight.settled (completeAnnotationMirror delivery rows).1.isOk
    delivery.ticket flight
  | retry delivery message nextAttempt =>
    Flight.settled (retryAnnotationMirror now delivery message nextAttempt rows).1.isOk
      delivery.ticket flight

end MirrorEvent

/-- The states of the mirror outbox, with the delivery of one image that is under way. -/
inductive MirrorsReached (itemImageID : Nat) : Clock → List AnnotationMirror →
      Option Flight → Prop where
  | start (now : Clock) : MirrorsReached itemImageID now [] none
  | step {now later : Clock} {rows : List AnnotationMirror} {flight : Option Flight} :
      MirrorsReached itemImageID now rows flight → now ≤ later → (event : MirrorEvent) →
      MirrorsReached itemImageID later (event.apply later rows)
        (event.follow itemImageID later rows flight)

section Mirrors

variable {itemImageID : Nat} {now : Clock} {rows : List AnnotationMirror} {flight : Option Flight}

theorem failExhaustedAnnotationMirror_keeps : Keeps (failExhaustedAnnotationMirror now) :=
  fun _ => ⟨rfl, rfl⟩

theorem failExhaustedAnnotationMirror_due (row : AnnotationMirror) :
    (failExhaustedAnnotationMirror now row).due (seconds now) = false := by
  simp [Row.due, failExhaustedAnnotationMirror]

def MirrorsKeyed (rows : List AnnotationMirror) : Prop := ∀ row ∈ rows, row.id = row.key

theorem MirrorsKeyed.apply (keyed : MirrorsKeyed rows) (event : MirrorEvent) :
    MirrorsKeyed (event.apply now rows) := by
  cases event with
  | publish published revision payload =>
    refine forall_upsert keyed (fun row here => ?_) rfl
    split <;> exact here
  | claim leaseDuration leaseOwner locked =>
    exact forall_claim keyed (fun _ here => here) fun _ here => here
  | complete delivery => exact fun row present => keyed row (Table.mem_delete.mp present).1
  | retry delivery message nextAttempt =>
    exact Table.forall_update keyed fun row member _ => keyed row member

theorem watched_publish (watched : Watched itemImageID (seconds now) rows flight)
    (keyed : MirrorsKeyed rows) (published revision : Nat) (payload : String) :
    Watched itemImageID (seconds now)
    (upsertAnnotationMirrorOutbox now published revision payload rows)
      ((MirrorEvent.publish published revision payload).follow itemImageID now rows flight) := by
  have unused : rowOf published rows = none → ∀ row ∈ rows, row.id ≠ published := by
    intro missing row member
    rw [keyed row member]
    simpa using List.find?_eq_none.mp missing row member
  simp only [MirrorEvent.follow]
  by_cases same : published = itemImageID
  · subst same
    split
    case isTrue newer =>
      refine watched.upserted (fun row => by split <;> exact ⟨rfl, rfl⟩) rfl unused fun row found => ?_
      have newer : row.version < revision := by simpa [found] using newer.2
      simp only [newer, if_true]
      exact ⟨rfl, rfl, rfl⟩
    case isFalse older =>
      -- the row stays as it is, or is inserted with no delivery under way before its horizon
      refine ⟨watched.distinct.upsert (fun row => by split <;> exact ⟨rfl, rfl⟩) rfl unused, ?_⟩
      intro current isFlight before
      obtain ⟨present, found, seen⟩ := watched.guards current isFlight before
      have older : ¬present.version < revision := by simpa [found] using older
      refine ⟨present, ?_, seen⟩
      rw [upsertAnnotationMirrorOutbox, rowOf_upsert_some (fun row => by split <;> rfl) found,
        if_neg older]
  · rw [if_neg fun here => same here.1]
    exact watched.upserted_other same (fun row => by split <;> exact ⟨rfl, rfl⟩) rfl unused

theorem claimAnnotationMirror_some {leaseDuration : Int} {leaseOwner : LeaseToken}
    {locked : Nat → Bool} {delivery : AnnotationMirrorDelivery} :
    (claimAnnotationMirror now leaseDuration leaseOwner locked rows).1 = some delivery ↔
      ∃ row, (Outbox.claim (seconds now) (deliveryLease now leaseDuration) leaseOwner.text locked
          (failExhaustedAnnotationMirror now) rows).1 = some row ∧
        ⟨row.key, row.version, row.body, leaseOwner.text, row.attemptCount + 1,
          row.maxAttempts⟩ = delivery :=
  Option.map_eq_some_iff

theorem watched_claimMirror (watched : Watched itemImageID (seconds now) rows flight)
    (keyed : MirrorsKeyed rows) (leaseDuration : Int) (leaseOwner : LeaseToken) (locked : Nat → Bool) :
    Watched itemImageID (seconds now)
    (claimAnnotationMirror now leaseDuration leaseOwner locked rows).2
      ((MirrorEvent.claim leaseDuration leaseOwner locked).follow itemImageID now rows flight) := by
  have claimed :=
    watched.claim (@failExhaustedAnnotationMirror_keeps now) (deliveryLease now leaseDuration)
    leaseOwner.text locked
  simp only [MirrorEvent.follow, claimAnnotationMirror]
  cases answer : (Outbox.claim (seconds now) (deliveryLease now leaseDuration) leaseOwner.text locked
      (failExhaustedAnnotationMirror now) rows).1 with
  | none => simpa only [answer, Option.map_none] using claimed
  | some row =>
    have fence : row.id = row.key :=
      keyed row (rowOf_some (due_of_claim watched.distinct failExhaustedAnnotationMirror_keeps
        failExhaustedAnnotationMirror_due answer).2).1
    simpa only [answer, fence, Option.map_some, AnnotationMirrorDelivery.ticket,
      leaseOwner.trimmed] using claimed

theorem watched_mirrorEvent (watched : Watched itemImageID (seconds now) rows flight)
    (keyed : MirrorsKeyed rows) (event : MirrorEvent) :
    Watched itemImageID (seconds now) (event.apply now rows)
    (event.follow itemImageID now rows flight) := by
  cases event with
  | publish published revision payload =>
    exact watched_publish watched keyed published revision payload
  | claim leaseDuration leaseOwner locked =>
    exact watched_claimMirror watched keyed leaseDuration leaseOwner locked
  | complete delivery =>
    simp only [MirrorEvent.follow, completeAnnotationMirror_isOk]
    exact watched.deleted fun _ => deliveredBy_heldBy
  | retry delivery message nextAttempt =>
    simp only [MirrorEvent.follow, retryAnnotationMirror_isOk]
    exact watched.updated (fun _ => deliveredBy_heldBy) fun _ => ⟨rfl, rfl⟩

theorem MirrorsReached.invariant (reached : MirrorsReached itemImageID now rows flight) :
    MirrorsKeyed rows ∧ Watched itemImageID (seconds now) rows flight := by
  induction reached with
  | start now => exact ⟨(fun _ member => nomatch member), .idle .nil⟩
  | step reached passed event ih =>
    exact ⟨ih.1.apply event, watched_mirrorEvent (ih.2.later (seconds_mono passed)) ih.1 event⟩

theorem MirrorsReached.notBefore_le (reached : MirrorsReached itemImageID now rows flight) :
    ∀ current, flight = some current → current.notBefore ≤ seconds now := by
  induction reached with
  | start now => exact fun _ none => nomatch none
  | @step now later rows flight reached passed event ih =>
    have earlier : ∀ current, flight = some current → current.notBefore ≤ seconds later :=
      fun current isFlight => (ih current isFlight).trans (seconds_mono passed)
    intro current isFlight
    cases event with
    | publish published revision payload =>
      simp only [MirrorEvent.follow] at isFlight
      split at isFlight
      · obtain ⟨before, _, rfl⟩ := Option.map_eq_some_iff.mp isFlight
        simp [Flight.again]
      · exact earlier current isFlight
    | claim leaseDuration leaseOwner locked =>
      simp only [MirrorEvent.follow] at isFlight
      split at isFlight
      · split at isFlight
        · obtain rfl := Option.some.inj isFlight
          exact Nat.zero_le _
        · exact earlier current isFlight
      · exact earlier current isFlight
    | complete delivery => exact earlier current (Flight.settled_some isFlight).1
    | retry delivery message nextAttempt => exact earlier current (Flight.settled_some isFlight).1

theorem mirror_claims_iff (distinct : Distinct rows) {horizon : Nat} :
    (∀ later, now ≤ later → seconds later < horizon → ∀ leaseDuration leaseOwner locked delivery,
      (claimAnnotationMirror later leaseDuration leaseOwner locked rows).1 = some delivery →
        delivery.itemImageID ≠ itemImageID) ↔
    ∀ time, seconds now ≤ time → time < horizon → ∀ present, rowOf itemImageID rows = some present →
      present.due time = false := by
  refine Iff.trans ?_ forall_seconds_iff
  refine forall_congr' fun later => forall_congr' fun _ => forall_congr' fun _ => ?_
  have claimed_iff : ∀ leaseUntil owner, _ := fun leaseUntil owner =>
    @claimed_iff _ _ _ _ rows _ leaseUntil owner _ distinct failExhaustedAnnotationMirror_keeps
      (@failExhaustedAnnotationMirror_due later) itemImageID
  constructor
  · intro waits present found
    by_contra isDue
    obtain ⟨locked, row, claimed, isKey⟩ :=
      (claimed_iff _ "worker").mpr ⟨present, found, by simpa using isDue⟩
    exact waits 0 ⟨"worker", by decide +kernel, by decide⟩ locked _
      (claimAnnotationMirror_some.mpr ⟨row, claimed, rfl⟩) isKey
  · intro waits leaseDuration leaseOwner locked delivery claimed isImage
    obtain ⟨row, answer, rfl⟩ := claimAnnotationMirror_some.mp claimed
    obtain ⟨present, found, isDue⟩ := (claimed_iff _ _).mp ⟨locked, row, answer, isImage⟩
    rw [waits present found] at isDue
    cases isDue

end Mirrors

/-! ### Cleanups -/

inductive CleanupEvent where
  | upsert (kind : ResourceCleanupKind) (resourceKey : String) (workspaceID storageBytes : Nat)
    (nextAttemptAt : Clock)
  | claim (leaseDuration : Int) (leaseOwner : LeaseToken)
    (locked : ResourceCleanupKind × String → Bool)
  | fence (delivery : ResourceCleanupDelivery)
  | complete (delivery : ResourceCleanupDelivery)
  | completeFenced (delivery : ResourceCleanupDelivery)
  | retry (delivery : ResourceCleanupDelivery) (message : String) (nextAttempt : Clock)

namespace CleanupEvent

def apply (now : Clock) : CleanupEvent → ResourceCleanups → ResourceCleanups
  | upsert kind resourceKey workspaceID storageBytes nextAttemptAt, cleanups =>
    upsertResourceCleanup now kind resourceKey workspaceID storageBytes nextAttemptAt cleanups
  | claim leaseDuration leaseOwner locked, cleanups =>
    (claimResourceCleanup now leaseDuration leaseOwner locked cleanups).2
  | fence delivery, cleanups => (fenceUploadResourceCleanup now delivery cleanups).1
  | complete delivery, cleanups => (completeResourceCleanup delivery cleanups).2
  | completeFenced delivery, cleanups => (completeFencedUploadResourceCleanup delivery cleanups).1
  | retry delivery message nextAttempt, cleanups =>
      (retryResourceCleanup now delivery message nextAttempt cleanups).2

def follow (resource : ResourceCleanupKind × String) (now : Clock) (cleanups : ResourceCleanups)
    (flight : Option Flight) : CleanupEvent → Option Flight
  | upsert kind resourceKey _ _ nextAttemptAt =>
    if (kind, resourceKey) = resource then
        flight.map (Flight.again (seconds now) (datetime nextAttemptAt)) else flight
  | claim leaseDuration leaseOwner locked =>
    match (claimResourceCleanup now leaseDuration leaseOwner locked cleanups).1 with
    | some delivery =>
      if (delivery.kind, delivery.resourceKey) = resource then
        some (Flight.begin delivery.ticket (deliveryLease now leaseDuration))
      else flight
    | none => flight
  | fence _ => flight
  | complete delivery => Flight.settled (completeResourceCleanup delivery cleanups).1.isOk
    delivery.ticket flight
  | completeFenced delivery =>
    Flight.settled ((completeFencedUploadResourceCleanup delivery cleanups).2 = 1)
      delivery.ticket flight
  | retry delivery message nextAttempt =>
    Flight.settled (retryResourceCleanup now delivery message nextAttempt cleanups).1.isOk
      delivery.ticket flight

end CleanupEvent

/-- The states of the cleanup outbox, with the cleanup of one resource that is under way. -/
inductive CleanupsReached (resource : ResourceCleanupKind × String) :
    Clock → ResourceCleanups → Option Flight → Prop where
  | start (now : Clock) : CleanupsReached resource now ⟨[], 1⟩ none
  | step {now later : Clock} {cleanups : ResourceCleanups} {flight : Option Flight} :
      CleanupsReached resource now cleanups flight → now ≤ later → (event : CleanupEvent) →
      CleanupsReached resource later (event.apply later cleanups)
        (event.follow resource later cleanups flight)

def mirrorWorker : LeaseToken := ⟨"mirror-worker", by decide +kernel, by decide⟩

def claimAny : MirrorEvent := .claim 30000000 mirrorWorker fun _ => false

def cleanAny : CleanupEvent := .claim 30000000 mirrorWorker fun _ => false

section Cleanups

variable {resource : ResourceCleanupKind × String} {now : Clock} {cleanups : ResourceCleanups}
  {flight : Option Flight}

theorem failExhaustedResourceCleanup_keeps : Keeps (failExhaustedResourceCleanup now) :=
  fun _ => ⟨rfl, rfl⟩

theorem failExhaustedResourceCleanup_due (row : ResourceCleanup) :
    (failExhaustedResourceCleanup now row).due (seconds now) = false := by
  by_cases isUpload : row.key.1 = .uploadBlob <;> simp [Row.due,
    failExhaustedResourceCleanup, isUpload]

def CleanupsIssued (cleanups : ResourceCleanups) : Prop :=
  ∀ row ∈ cleanups.rows, row.id < cleanups.nextID

theorem CleanupsIssued.apply (issued : CleanupsIssued cleanups) (event : CleanupEvent) :
    CleanupsIssued (event.apply now cleanups) := by
  cases event with
  | upsert kind resourceKey workspaceID storageBytes nextAttemptAt =>
    exact forall_upsert (fun row member => Nat.lt_succ_of_lt (issued row member)) (fun _ here => here)
      (Nat.lt_succ_self _)
  | claim leaseDuration leaseOwner locked =>
    exact forall_claim issued (fun _ here => here) fun _ here => here
  | fence delivery => exact Table.forall_update issued fun row member _ => issued row member
  | complete delivery => exact fun row present => issued row (Table.mem_delete.mp present).1
  | completeFenced delivery => exact fun row present => issued row (Table.mem_delete.mp present).1
  | retry delivery message nextAttempt =>
    exact Table.forall_update issued fun row member _ => issued row member

theorem claimResourceCleanup_some {leaseDuration : Int} {leaseOwner : LeaseToken}
    {locked : ResourceCleanupKind × String → Bool} {delivery : ResourceCleanupDelivery} :
    (claimResourceCleanup now leaseDuration leaseOwner locked cleanups).1 = some delivery ↔
      ∃ row, (Outbox.claim (seconds now) (deliveryLease now leaseDuration) leaseOwner.text locked
          (failExhaustedResourceCleanup now) cleanups.rows).1 = some row ∧
        ⟨row.id, row.key.1, row.key.2, row.body.workspaceID, row.body.storageBytes, row.version,
          leaseOwner.text,
          row.attemptCount + 1, row.maxAttempts⟩ = delivery :=
  Option.map_eq_some_iff

theorem watched_claimCleanup (watched : Watched resource (seconds now) cleanups.rows flight)
    (leaseDuration : Int) (leaseOwner : LeaseToken) (locked : ResourceCleanupKind × String → Bool) :
    Watched resource (seconds now)
    (claimResourceCleanup now leaseDuration leaseOwner locked cleanups).2.rows
      ((CleanupEvent.claim leaseDuration leaseOwner locked).follow resource now cleanups flight) := by
  have claimed :=
    watched.claim (@failExhaustedResourceCleanup_keeps now) (deliveryLease now leaseDuration)
    leaseOwner.text locked
  simp only [CleanupEvent.follow, claimResourceCleanup]
  cases answer : (Outbox.claim (seconds now) (deliveryLease now leaseDuration) leaseOwner.text locked
      (failExhaustedResourceCleanup now) cleanups.rows).1 with
  | none => simpa only [answer, Option.map_none] using claimed
  | some row => simpa only [answer, Option.map_some, ResourceCleanupDelivery.ticket,
    leaseOwner.trimmed] using claimed

theorem watched_cleanupEvent (watched : Watched resource (seconds now) cleanups.rows flight)
    (issued : CleanupsIssued cleanups) (event : CleanupEvent) :
    Watched resource (seconds now) (event.apply now cleanups).rows
      (event.follow resource now cleanups flight) := by
  cases event with
  | upsert kind resourceKey workspaceID storageBytes nextAttemptAt =>
    have unused : ∀ row ∈ cleanups.rows, row.id ≠ cleanups.nextID :=
      fun row member => Nat.ne_of_lt (issued row member)
    simp only [CleanupEvent.follow]
    split
    case isTrue same =>
      subst same
      exact watched.upserted (fun _ => ⟨rfl, rfl⟩) rfl (fun _ => unused) fun _ _ => ⟨rfl, rfl, rfl⟩
    case isFalse other => exact watched.upserted_other other (fun _ => ⟨rfl, rfl⟩) rfl fun _ => unused
  | claim leaseDuration leaseOwner locked =>
    exact watched_claimCleanup watched leaseDuration leaseOwner locked
  | fence delivery => exact watched.rewritten (fun _ => ⟨rfl, rfl⟩) fun _ _ seen => seen
  | complete delivery =>
    simp only [CleanupEvent.follow, completeResourceCleanup_isOk]
    exact watched.deleted fun row done => cleanedBy_heldBy (Bool.and_eq_true_iff.mp done).1
  | completeFenced delivery =>
    refine watched.deleted fun row done => cleanedBy_heldBy ?_
    simp only [Bool.and_eq_true] at done
    exact done.1.1
  | retry delivery message nextAttempt =>
    simp only [CleanupEvent.follow, retryResourceCleanup_isOk]
    exact watched.updated (fun _ => cleanedBy_heldBy) fun _ => ⟨rfl, rfl⟩

theorem CleanupsReached.invariant (reached : CleanupsReached resource now cleanups flight) :
    CleanupsIssued cleanups ∧ Watched resource (seconds now) cleanups.rows flight := by
  induction reached with
  | start now => exact ⟨(fun _ member => nomatch member), .idle .nil⟩
  | step reached passed event ih =>
    exact ⟨ih.1.apply event, watched_cleanupEvent (ih.2.later (seconds_mono passed)) ih.1 event⟩

theorem cleanup_claims_iff (distinct : Distinct cleanups.rows) {horizon : Nat} :
    (∀ later, now ≤ later → seconds later < horizon → ∀ leaseDuration leaseOwner locked delivery,
      (claimResourceCleanup later leaseDuration leaseOwner locked cleanups).1 = some delivery →
        (delivery.kind, delivery.resourceKey) ≠ resource) ↔
    ∀ time, seconds now ≤ time → time < horizon → ∀ present,
      rowOf resource cleanups.rows = some present →
      present.due time = false := by
  refine Iff.trans ?_ forall_seconds_iff
  refine forall_congr' fun later => forall_congr' fun _ => forall_congr' fun _ => ?_
  have claimed_iff : ∀ leaseUntil owner, _ := fun leaseUntil owner =>
    @claimed_iff _ _ _ _ cleanups.rows _ leaseUntil owner _ distinct failExhaustedResourceCleanup_keeps
      (@failExhaustedResourceCleanup_due later) resource
  constructor
  · intro waits present found
    by_contra isDue
    obtain ⟨locked, row, claimed, isKey⟩ :=
      (claimed_iff _ "worker").mpr ⟨present, found, by simpa using isDue⟩
    exact waits 0 ⟨"worker", by decide +kernel, by decide⟩ locked _
      (claimResourceCleanup_some.mpr ⟨row, claimed, rfl⟩) isKey
  · intro waits leaseDuration leaseOwner locked delivery claimed isResource
    obtain ⟨row, answer, rfl⟩ := claimResourceCleanup_some.mp claimed
    obtain ⟨present, found, isDue⟩ := (claimed_iff _ _).mp ⟨locked, row, answer, isResource⟩
    rw [waits present found] at isDue
    cases isDue

/-- The cleanup of an upload is pending, or leased until some time. -/
def NotGivenUp (row : ResourceCleanup) : Prop :=
  row.key.1 = .uploadBlob → row.status = .pending ∨ row.status = .processing ∧
    row.leaseUntil.isSome = true

theorem notGivenUp_apply (all : ∀ row ∈ cleanups.rows, NotGivenUp row)
    (event : CleanupEvent) : ∀ row ∈ (event.apply now cleanups).rows, NotGivenUp row := by
  cases event with
  | upsert kind resourceKey workspaceID storageBytes nextAttemptAt =>
    exact forall_upsert all (fun _ _ _ => .inl rfl) fun _ => .inl rfl
  | claim leaseDuration leaseOwner locked =>
    refine forall_claim all (fun row _ isUpload => .inl ?_) fun _ _ _ => .inr ⟨rfl, rfl⟩
    exact if_pos isUpload
  | fence delivery => exact Table.forall_update all fun row member _ => all row member
  | complete delivery => exact fun row member => all row (Table.mem_delete.mp member).1
  | completeFenced delivery => exact fun row member => all row (Table.mem_delete.mp member).1
  | retry delivery message nextAttempt =>
    exact Table.forall_update all fun row _ _ isUpload => .inl (if_pos isUpload)

/-- The deletion of an upload is never given up: from some time on its row is due, or is rescheduled
by the next claim. -/
theorem upload_cleanup_comes_due (reached : CleanupsReached resource now cleanups flight) :
    ∀ row ∈ cleanups.rows, row.key.1 = .uploadBlob →
      ∃ time, ∀ later, time ≤ later → row.due later = true ∨ row.exhausted later = true := by
  have all : ∀ row ∈ cleanups.rows, NotGivenUp row := by
    induction reached with
    | start => exact List.forall_mem_nil _
    | step _ _ event ih => exact notGivenUp_apply ih event
  intro row member isUpload
  rcases all row member isUpload with pending | ⟨processing, leased⟩
  · refine ⟨row.nextAttemptAt, fun later passed => .inl ?_⟩
    simp [Row.due, pending, passed]
  · obtain ⟨expiry, isExpiry⟩ := Option.isSome_iff_exists.mp leased
    refine ⟨expiry + 1, fun later passed => ?_⟩
    rcases Nat.lt_or_ge row.attemptCount row.maxAttempts with fresh | spent
    · exact .inl (by simp [Row.due, processing, isExpiry, fresh]; omega)
    · exact .inr (by simp [Row.exhausted, processing, isExpiry, spent]; omega)

def silentCleanups : Nat → ResourceCleanups
  | 0 => upsertResourceCleanup 0 .uploadBlob "u" 1 5 0 ⟨[], 1⟩
  | claims + 1 => cleanAny.apply ((claims + 1) * 60000000) (silentCleanups claims)

theorem silentCleanups_reached (claims : Nat) :
    ∃ flight, CleanupsReached (.uploadBlob, "u") (claims * 60000000)
    (silentCleanups claims) flight := by
  induction claims with
  | zero => exact ⟨_, (CleanupsReached.start 0).step (Nat.le_refl 0) (.upsert .uploadBlob "u" 1 5 0)⟩
  | succ claims ih =>
    obtain ⟨flight, reached⟩ := ih
    exact ⟨_, reached.step (Nat.mul_le_mul_right _ (Nat.le_succ claims)) cleanAny⟩

/-- After its last attempt the row is put back by the next claim, and comes due again. -/
theorem staged_upload_comes_due :
    (silentCleanups outboxMaxAttempts).rows.map (fun row => (row.status, row.attemptCount)) =
        [(.processing, outboxMaxAttempts)] ∧
      (silentCleanups (outboxMaxAttempts + 1)).rows.map
        (fun row => (row.key.1, row.status, row.attemptCount)) =
        [(.uploadBlob, .pending, outboxMaxAttempts)] ∧
      ∀ row ∈ (silentCleanups (outboxMaxAttempts + 1)).rows,
        ∃ time, ∀ later, time ≤ later → row.due later = true ∨ row.exhausted later = true := by
  have recovered : (silentCleanups (outboxMaxAttempts + 1)).rows.map
      (fun row => (row.key.1, row.status, row.attemptCount)) =
          [(.uploadBlob, .pending, outboxMaxAttempts)] := by
    decide +kernel
  refine ⟨by decide +kernel, recovered, fun row member => ?_⟩
  obtain ⟨flight, reached⟩ := silentCleanups_reached (outboxMaxAttempts + 1)
  have listed := List.mem_map_of_mem (f := fun row : ResourceCleanup =>
    (row.key.1, row.status, row.attemptCount)) member
  rw [recovered, List.mem_singleton] at listed
  exact upload_cleanup_comes_due reached row member (congrArg Prod.fst listed)

end Cleanups

/-! ### Deliveries wait for the horizon -/

/-- While a delivery is under way, the claims before the end of its lease leave its image or
resource alone exactly when the row was written anew at most once since the delivery was claimed,
apart from a cleanup that the last write itself deferred beyond that end. -/
theorem claims_wait_for_the_horizon_iff (itemImageID : Nat)
    (resource : ResourceCleanupKind × String) (now : Clock) :
    (∀ rows flight, MirrorsReached itemImageID now rows (some flight) →
      ((∀ later, now ≤ later → seconds later < flight.horizon →
        ∀ leaseDuration leaseOwner locked delivery,
          (claimAnnotationMirror later leaseDuration leaseOwner locked rows).1 = some delivery →
            delivery.itemImageID ≠ itemImageID) ↔
        flight.reenqueued ≤ 1 ∨ flight.horizon ≤ seconds now)) ∧
    (∀ cleanups flight, CleanupsReached resource now cleanups (some flight) →
      ((∀ later, now ≤ later → seconds later < flight.horizon →
        ∀ leaseDuration leaseOwner locked delivery,
          (claimResourceCleanup later leaseDuration leaseOwner locked cleanups).1 = some delivery →
            (delivery.kind, delivery.resourceKey) ≠ resource) ↔
        flight.reenqueued ≤ 1 ∨ flight.horizon ≤ flight.notBefore ∨
        flight.horizon ≤ seconds now)) := by
  constructor
  · intro rows flight reached
    have watched := reached.invariant.2
    have past := reached.notBefore_le flight rfl
    rw [mirror_claims_iff watched.distinct, (watched.guards flight rfl).waits_iff]
    omega
  · intro cleanups flight reached
    have watched := reached.invariant.2
    rw [cleanup_claims_iff watched.distinct, (watched.guards flight rfl).waits_iff]

theorem claims_wait_after_one_publication :
    ∃ rows flight, MirrorsReached 7 1000000 rows (some flight) ∧ flight.horizon = 30 ∧
      flight.reenqueued = 1 ∧
      ∀ later, 1000000 ≤ later → seconds later < 30 → ∀ leaseDuration leaseOwner locked delivery,
        (claimAnnotationMirror later leaseDuration leaseOwner locked rows).1 = some delivery →
          delivery.itemImageID ≠ 7 := by
  have published := (MirrorsReached.start 0 : MirrorsReached 7 0 [] none).step (Nat.le_refl 0)
    (.publish 7 1 "first")
  have claimed := published.step (Nat.le_refl 0) claimAny
  have again := claimed.step (Nat.zero_le 1000000) (.publish 7 2 "second")
  exact ⟨_, _, again, rfl, rfl,
    ((claims_wait_for_the_horizon_iff 7 (.uploadBlob, "page.png") 1000000).1 _ _ again).mpr
    (.inl (Nat.le_refl 1))⟩

/-- Two publications, or two requests for the same cleanup, during one delivery: the lease runs to
second 30, and another worker claims the same image, or the same resource, at second 3. -/
theorem claimed_before_the_horizon :
    (∃ rows flight, MirrorsReached 7 2000000 rows (some flight) ∧ flight.horizon = 30 ∧
      (claimAnnotationMirror 3000000 30000000 mirrorWorker (fun _ => false) rows).1.map
        (·.itemImageID) = some 7) ∧
    (∃ cleanups flight, CleanupsReached (.uploadBlob, "page.png") 2000000 cleanups (some flight) ∧
      flight.horizon = 30 ∧
      (claimResourceCleanup 3000000 30000000 mirrorWorker (fun _ => false) cleanups).1.map
        (fun delivery => (delivery.kind, delivery.resourceKey)) = some (.uploadBlob, "page.png")) := by
  constructor
  · have published := (MirrorsReached.start 0 : MirrorsReached 7 0 [] none).step (Nat.le_refl 0)
      (.publish 7 1 "first")
    have claimed := published.step (Nat.le_refl 0) claimAny
    have again := claimed.step (Nat.zero_le 1000000) (.publish 7 2 "second")
    have twice := again.step (show 1000000 ≤ 2000000 by decide) (.publish 7 3 "third")
    exact ⟨_, _, twice, rfl, by decide +kernel⟩
  · have requested :=
      (CleanupsReached.start 0 : CleanupsReached (.uploadBlob, "page.png") 0 ⟨[], 1⟩ none).step
      (Nat.le_refl 0) (.upsert .uploadBlob "page.png" 1 10 0)
    have claimed := requested.step (Nat.le_refl 0) cleanAny
    have again := claimed.step (Nat.zero_le 1000000) (.upsert .uploadBlob "page.png" 1 10 1000000)
    have twice :=
      again.step (show 1000000 ≤ 2000000 by decide) (.upsert .uploadBlob "page.png" 1 10 2000000)
    exact ⟨_, _, twice, rfl, by decide +kernel⟩

end Scribe.Store
