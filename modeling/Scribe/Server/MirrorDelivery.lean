import Mathlib.Logic.Relation
import Scribe.Store.Horizon

/-! Delivery of published pages to the remote Presentation store.

A publication replaces the public snapshot of an image, records the annotations that
left it as tombstones and enqueues a mirror delivery. A delivery loads the snapshot
and the tombstones in two steps, writes every annotation of the snapshot, deletes the
tombstoned annotations it does not contain, acknowledges these deletions and removes
the outbox row if it is still the one it claimed. It may stop anywhere.

The remote store is a map from annotation ids. The parents of a delivery (painting
resources, page, canvas and manifest) have ids that no annotation has, so writing them
is a step that this map does not see.
-/

set_option autoImplicit false

namespace Scribe.Server

open Store Outbox List
open Attempt (refuse refuse_ok_iff)

/-- An annotation of a page as a resource of its own. -/
structure ResourceDocument where
  id : String
  payload : String
  deriving DecidableEq

structure Publication where
  revision : Nat
  payload : String
  deriving DecidableEq

/-- How far a delivery has come. -/
inductive Phase where
  | claimed
  /-- The published children were loaded. -/
  | loaded (children : List ResourceDocument)
  /-- The tombstones were loaded; some children are still to be written. -/
  | putting (children todo : List ResourceDocument) (removed : List String)
  /-- The parents were written; some removed children are still to be deleted. -/
  | deleting (todo removed : List String)
  | acknowledged

structure Delivery where
  claim : AnnotationMirrorDelivery
  phase : Phase

/-- What concerns the mirror of one image, and the ids that were ever members of its published
page. -/
structure MirrorWorld where
  mirrors : List AnnotationMirror
  published : Option Publication
  tombstones : List String
  remote : String → Option String
  delivery : Option Delivery
  members : List String

section Model

/- `iiif.AnnotationsFromPage`: the annotations of a page that is well formed. -/
variable (annotationsFromPage : String → Option (List ResourceDocument))

def annotationIDsFromPublishedPage (payload : String) : Except StoreError (List String) :=
  if payload = "" then pure []
  else
    match annotationsFromPage payload with
    | some children => pure (children.map (·.id))
    | none => throw (.message "invalid annotation page")

/-- The ids that left the published page, without those the new page has. -/
def replaceAnnotationMirrorTombstones (stale : List String) (previousPayload nextPayload : String) :
    Except StoreError (List String) := do
  let previous ← annotationIDsFromPublishedPage annotationsFromPage previousPayload
  let next ← annotationIDsFromPublishedPage annotationsFromPage nextPayload
  pure ((stale ++ previous.filter fun id => id ∉ stale).filter fun id => id ∉ next)

/-- The part of `PublishPage` that concerns the mirror: the canonical page is published unless it
already is. The page that is already published was validated when it was. -/
def publishMirror (now : Clock) (itemImageID : Nat) (canonical : Publication) (world : MirrorWorld) :
    Except StoreError MirrorWorld :=
  if world.published.any (·.revision = canonical.revision) then pure world
  else do
    refuse ((annotationsFromPage canonical.payload).isNone = true) (.message "publish annotation page")
    refuse (world.published.any (canonical.revision < ·.revision) = true) .annotationRevisionConflict
    let tombstones ← replaceAnnotationMirrorTombstones annotationsFromPage world.tombstones
      (world.published.elim "" (·.payload)) canonical.payload
    let members ← annotationIDsFromPublishedPage annotationsFromPage canonical.payload
    pure { world with
      published := some canonical
      tombstones := tombstones
      mirrors := upsertAnnotationMirrorOutbox now itemImageID canonical.revision
        canonical.payload world.mirrors
      members := world.members ++ members }

def acknowledgeAnnotationMirrorTombstones (delivered tombstones : List String) : List String :=
  tombstones.filter fun id => id ∉ delivered

def MirrorWorld.children (world : MirrorWorld) : List ResourceDocument :=
  (world.published.bind fun page => annotationsFromPage page.payload).getD []

def Elsewhere (itemImageID : Nat) (now : Clock) (rows : List AnnotationMirror) : MirrorEvent → Prop
  | .publish published _ _ => published ≠ itemImageID
  | .claim leaseDuration leaseOwner locked =>
    ∀ delivery, (claimAnnotationMirror now leaseDuration leaseOwner locked rows).1 = some delivery →
      delivery.itemImageID ≠ itemImageID
  | .complete delivery => delivery.itemImageID ≠ itemImageID
  | .retry delivery _ _ => delivery.itemImageID ≠ itemImageID

/-- The steps of publications and of a delivery of one image. A delivery is claimed when none is in
progress. -/
inductive MirrorStep (itemImageID : Nat) : MirrorWorld → MirrorWorld → Prop where
  | publish {world next : MirrorWorld} (now : Clock) (canonical : Publication)
      (done : publishMirror annotationsFromPage now itemImageID canonical world = .ok next) :
      MirrorStep itemImageID world next
  | elsewhere {world : MirrorWorld} (now : Clock) (event : MirrorEvent)
      (other : Elsewhere itemImageID now world.mirrors event) :
      MirrorStep itemImageID world { world with mirrors := event.apply now world.mirrors }
  | claim {world : MirrorWorld} (now : Clock) (leaseDuration : Int) (leaseOwner : LeaseToken)
      (locked : Nat → Bool)
      {claim : AnnotationMirrorDelivery} (idle : world.delivery = none)
      (claimed : (claimAnnotationMirror now leaseDuration leaseOwner locked world.mirrors).1 =
        some claim)
      (here : claim.itemImageID = itemImageID) :
      MirrorStep itemImageID world { world with
        mirrors := (claimAnnotationMirror now leaseDuration leaseOwner locked world.mirrors).2
        delivery := some ⟨claim, .claimed⟩ }
  | load {world : MirrorWorld} {claim : AnnotationMirrorDelivery} {page : Publication}
      {children : List ResourceDocument}
      (phase : world.delivery = some ⟨claim, .claimed⟩) (isPage : world.published = some page)
      (decoded : annotationsFromPage page.payload = some children)
        (distinct : (children.map (·.id)).Nodup) :
      MirrorStep itemImageID world { world with delivery := some ⟨claim, .loaded children⟩ }
  -- Ids that are on the page again are not deleted.
  | loadTombstones {world : MirrorWorld} {claim : AnnotationMirrorDelivery}
      {children : List ResourceDocument}
      (phase : world.delivery = some ⟨claim, .loaded children⟩) :
      MirrorStep itemImageID world { world with
        delivery := some ⟨claim, .putting children children
          (world.tombstones.filter fun id => id ∉ children.map (·.id))⟩ }
  | put {world : MirrorWorld} {claim : AnnotationMirrorDelivery}
      {children todo : List ResourceDocument}
      {removed : List String} (phase : world.delivery = some ⟨claim, .putting children todo removed⟩)
      (child : ResourceDocument) (pending : child ∈ todo) :
      MirrorStep itemImageID world { world with
        remote := Function.update world.remote child.id (some child.payload)
        delivery := some ⟨claim, .putting children (todo.erase child) removed⟩ }
  -- Writing the parents changes no annotation.
  | putParents {world : MirrorWorld} {claim : AnnotationMirrorDelivery}
      {children : List ResourceDocument}
      {removed : List String} (phase : world.delivery = some ⟨claim, .putting children [] removed⟩) :
      MirrorStep itemImageID world { world with delivery := some ⟨claim, .deleting removed removed⟩ }
  | delete {world : MirrorWorld} {claim : AnnotationMirrorDelivery} {todo removed : List String}
      (phase : world.delivery = some ⟨claim, .deleting todo removed⟩) (id : String)
        (pending : id ∈ todo) :
      MirrorStep itemImageID world { world with
        remote := Function.update world.remote id none
        delivery := some ⟨claim, .deleting (todo.erase id) removed⟩ }
  | acknowledge {world : MirrorWorld} {claim : AnnotationMirrorDelivery} {removed : List String}
      (phase : world.delivery = some ⟨claim, .deleting [] removed⟩) :
      MirrorStep itemImageID world { world with
        tombstones := acknowledgeAnnotationMirrorTombstones removed world.tombstones
        delivery := some ⟨claim, .acknowledged⟩ }
  | complete {world : MirrorWorld} {claim : AnnotationMirrorDelivery}
      (phase : world.delivery = some ⟨claim, .acknowledged⟩) :
      MirrorStep itemImageID world { world with
        mirrors := (completeAnnotationMirror claim world.mirrors).2
        delivery := none }
  /-- A delivery that failed. -/
  | retry {world : MirrorWorld} {delivery : Delivery} (now : Clock) (message : String)
      (nextAttempt : Clock)
      (running : world.delivery = some delivery) :
      MirrorStep itemImageID world { world with
        mirrors := (retryAnnotationMirror now delivery.claim message nextAttempt world.mirrors).2
        delivery := none }
  /-- A delivery whose process stopped. -/
  | crash {world : MirrorWorld} : MirrorStep itemImageID world { world with delivery := none }

/-- Nothing of the image is published; the remote store may hold anything. -/
def MirrorWorld.start (remote : String → Option String) : MirrorWorld :=
  ⟨[], none, [], remote, none, []⟩

def MirrorWorldReached (itemImageID : Nat) (world : MirrorWorld) : Prop :=
  ∃ remote, Relation.ReflTransGen (MirrorStep annotationsFromPage itemImageID) (.start remote) world

end Model

/-! ### What a delivery knows -/

def childIDs (children : List ResourceDocument) : List String := children.map (·.id)

def Shows (remote : String → Option String) (children : List ResourceDocument) : Prop :=
  ∀ child ∈ children, remote child.id = some child.payload

/-- The ids that the snapshot holds or the tombstones still list. -/
def Covers (children : List ResourceDocument) (tombstones : List String) (id : String) : Prop :=
  id ∈ childIDs children ∨ id ∈ tombstones

/-- What holds in a phase whatever was published since the claim. -/
def Phase.Safe (children : List ResourceDocument) (tombstones : List String)
    (remote : String → Option String) : Phase → Prop
  | .claimed => True
  | .loaded desired => ∀ child ∈ desired, Covers children tombstones child.id
  | .putting _ todo _ => ∀ child ∈ todo, Covers children tombstones child.id
  | .deleting todo removed => ∀ id ∈ removed, id ∉ todo → remote id = none
  | .acknowledged => True

/-- What holds in a phase as long as nothing was published since the claim. -/
def Phase.Current (children : List ResourceDocument) (tombstones : List String)
    (remote : String → Option String) : Phase → Prop
  | .claimed => True
  | .loaded desired => desired = children ∧ (childIDs children).Nodup
  | .putting desired todo removed => desired = children ∧ (childIDs children).Nodup ∧
      (∀ child ∈ todo, child ∈ children) ∧
      (∀ id ∈ tombstones, id ∈ removed) ∧ (∀ id ∈ removed, id ∉ childIDs children) ∧
      ∀ child ∈ children, child ∉ todo → remote child.id = some child.payload
  | .deleting todo removed => Shows remote children ∧ (∀ id ∈ todo, id ∈ removed) ∧
      (∀ id ∈ tombstones, id ∈ removed) ∧
      ∀ id ∈ removed, id ∉ childIDs children
  | .acknowledged => Shows remote children ∧ tombstones = []

theorem Phase.Safe.mono {children fresh : List ResourceDocument} {tombstones stale : List String}
    {remote : String → Option String} {phase : Phase} (safe : phase.Safe children tombstones remote)
    (covers : ∀ id, Covers children tombstones id → Covers fresh stale id) :
    phase.Safe fresh stale remote := by
  cases phase with
  | claimed => trivial
  | loaded desired => exact fun child member => covers _ (safe child member)
  | putting desired todo removed => exact fun child member => covers _ (safe child member)
  | deleting todo removed => exact safe
  | acknowledged => trivial

section Invariant

variable {annotationsFromPage : String → Option (List ResourceDocument)} {itemImageID : Nat}
  {world : MirrorWorld}

structure Delivering (annotationsFromPage : String → Option (List ResourceDocument))
    (itemImageID : Nat) (world : MirrorWorld) (delivery : Delivery) : Prop where
  image : delivery.claim.itemImageID = itemImageID
  behind : ∀ page, world.published = some page → delivery.claim.revision ≤ page.revision
  safe : delivery.phase.Safe (world.children annotationsFromPage) world.tombstones world.remote
  current : ∀ page, world.published = some page → delivery.claim.revision = page.revision →
    delivery.phase.Current (world.children annotationsFromPage) world.tombstones world.remote

structure Mirrored (annotationsFromPage : String → Option (List ResourceDocument)) (itemImageID : Nat)
    (world : MirrorWorld) : Prop where
  distinct : Distinct world.mirrors
  keyed : MirrorsKeyed world.mirrors
  version : ∀ row, rowOf itemImageID world.mirrors = some row →
    ∃ page, world.published = some page ∧ row.version = page.revision
  decoded : ∀ page, world.published = some page → annotationsFromPage page.payload ≠ none
  apart : ∀ id ∈ world.tombstones, id ∉ childIDs (world.children annotationsFromPage)
  covered : ∀ id ∈ world.members, world.remote id ≠ none →
    Covers (world.children annotationsFromPage) world.tombstones id
  delivering : ∀ delivery, world.delivery = some delivery →
    Delivering annotationsFromPage itemImageID world delivery
  settled : rowOf itemImageID world.mirrors = none →
    world.delivery = none ∧ world.tombstones = [] ∧
    Shows world.remote (world.children annotationsFromPage)

namespace Mirrored

theorem start (remote : String → Option String) :
    Mirrored annotationsFromPage itemImageID (.start remote) where
  distinct := .nil
  keyed := fun _ member => nomatch member
  version := fun _ found => nomatch found
  decoded := fun _ isPage => nomatch isPage
  apart := fun _ member => nomatch member
  covered := fun _ member => nomatch member
  delivering := fun _ running => nomatch running
  settled := fun _ => ⟨rfl, rfl, fun _ member => nomatch member⟩

section
variable (mirrored : Mirrored annotationsFromPage itemImageID world)
include mirrored

theorem row_of_delivery {delivery : Delivery}
    (running : world.delivery = some delivery) : rowOf itemImageID world.mirrors ≠ none := by
  intro missing
  rw [(mirrored.settled missing).1] at running
  cases running

theorem advance {claim : AnnotationMirrorDelivery} {phase : Phase}
    (running : world.delivery = some ⟨claim, phase⟩) (next : Phase) {tombstones : List String}
    {remote : String → Option String} (shrinks : ∀ id ∈ tombstones, id ∈ world.tombstones)
    (covered : ∀ id ∈ world.members, remote id ≠ none →
      Covers (world.children annotationsFromPage) tombstones id)
    (safe : phase.Safe (world.children annotationsFromPage) world.tombstones world.remote →
      next.Safe (world.children annotationsFromPage) tombstones remote)
    (current : phase.Current (world.children annotationsFromPage) world.tombstones world.remote →
      next.Current (world.children annotationsFromPage) tombstones remote) :
    Mirrored annotationsFromPage itemImageID
      { world with tombstones := tombstones, remote := remote, delivery := some ⟨claim, next⟩ } := by
  refine { mirrored with
    apart := fun id member => mirrored.apart id (shrinks id member)
    covered := covered
    delivering := fun delivery isDelivery => ?_
    settled := fun missing => absurd missing (mirrored.row_of_delivery running) }
  obtain rfl := Option.some.inj isDelivery
  have before := mirrored.delivering _ running
  exact ⟨before.image, before.behind, safe before.safe, fun page isPage same =>
    current (before.current page isPage same)⟩

theorem crash : Mirrored annotationsFromPage itemImageID { world with delivery := none } :=
  { mirrored with
    delivering := fun _ running => nomatch running
    settled := fun missing => ⟨rfl, (mirrored.settled missing).2⟩ }

theorem outbox (now : Clock) (event : MirrorEvent) :
    Distinct (event.apply now world.mirrors) ∧ MirrorsKeyed (event.apply now world.mirrors) := by
  have watched : Watched itemImageID (seconds now) world.mirrors none := .idle mirrored.distinct
  exact ⟨(watched_mirrorEvent watched mirrored.keyed event).distinct, mirrored.keyed.apply event⟩

theorem rewritten {now : Clock} (event : MirrorEvent) {assign : AnnotationMirror → AnnotationMirror}
    (keeps : ∀ row, (assign row).version = row.version)
    (same : rowOf itemImageID (event.apply now world.mirrors) =
      (rowOf itemImageID world.mirrors).map assign) :
    Mirrored annotationsFromPage itemImageID
      { world with mirrors := event.apply now world.mirrors } := by
  refine { mirrored with
    distinct := (mirrored.outbox now event).1
    keyed := (mirrored.outbox now event).2
    version := fun row found => ?_
    delivering := fun delivery running => { mirrored.delivering delivery running with }
    settled := fun missing => mirrored.settled (Option.map_eq_none_iff.mp (same ▸ missing)) }
  obtain ⟨old, isOld, rfl⟩ := Option.map_eq_some_iff.mp (same ▸ found)
  rw [keeps]
  exact mirrored.version old isOld

theorem retry (delivery : Delivery) (now : Clock) (message : String) (nextAttempt : Clock) :
    Mirrored annotationsFromPage itemImageID { world with
      mirrors := (retryAnnotationMirror now delivery.claim message nextAttempt world.mirrors).2,
        delivery := none } := by
  refine crash (mirrored.rewritten (.retry delivery.claim message nextAttempt) (fun row => ?_)
    (rowOf_update fun _ => rfl))
  split <;> rfl

theorem complete {claim : AnnotationMirrorDelivery}
    (running : world.delivery = some ⟨claim, .acknowledged⟩) :
    Mirrored annotationsFromPage itemImageID
      { world with mirrors := (completeAnnotationMirror claim
        world.mirrors).2, delivery := none } := by
  have present : rowOf itemImageID (completeAnnotationMirror claim world.mirrors).2 =
      (rowOf itemImageID world.mirrors).filter fun row => !deliveredBy claim row :=
    rowOf_delete mirrored.distinct.keys
  have outbox := mirrored.outbox 0 (.complete claim)
  refine { mirrored with
    distinct := outbox.1
    keyed := outbox.2
    version := fun row found => mirrored.version row (Option.filter_eq_some_iff.mp (present ▸ found)).1
    delivering := fun _ running => nomatch running
    settled := fun missing => ⟨rfl, ?_⟩ }
  cases found : rowOf itemImageID world.mirrors with
  | none => exact (mirrored.settled found).2
  | some row =>
    have missing : rowOf itemImageID (completeAnnotationMirror claim world.mirrors).2 = none := missing
    rw [present, found] at missing
    have held : deliveredBy claim row = true := by simpa [Option.filter] using missing
    obtain ⟨page, isPage, version⟩ := mirrored.version row found
    have revision := (Row.heldBy_iff.mp (deliveredBy_heldBy held)).2.1
    have here := (mirrored.delivering _ running).current page isPage (revision.symm.trans version)
    exact ⟨here.2, here.1⟩

theorem claim {now : Clock} {leaseDuration : Int} {leaseOwner : LeaseToken} {locked : Nat → Bool}
    {claim : AnnotationMirrorDelivery}
    (claimed : (claimAnnotationMirror now leaseDuration leaseOwner locked world.mirrors).1 =
      some claim)
    (here : claim.itemImageID = itemImageID) :
    Mirrored annotationsFromPage itemImageID { world with
      mirrors := (claimAnnotationMirror now leaseDuration leaseOwner locked world.mirrors).2
      delivery := some ⟨claim, .claimed⟩ } := by
  obtain ⟨row, answer, rfl⟩ := claimAnnotationMirror_some.mp claimed
  have isKey : row.key = itemImageID := here
  obtain ⟨_, found⟩ := due_of_claim mirrored.distinct failExhaustedAnnotationMirror_keeps
    failExhaustedAnnotationMirror_due answer
  obtain ⟨_, _, leased⟩ := rowOf_claim mirrored.distinct failExhaustedAnnotationMirror_keeps answer
  rw [isKey] at found leased
  obtain ⟨page, isPage, version⟩ := mirrored.version row found
  have leased : rowOf itemImageID (claimAnnotationMirror now leaseDuration leaseOwner locked
    world.mirrors).2 = _ := leased
  have outbox := mirrored.outbox now (.claim leaseDuration leaseOwner locked)
  refine { mirrored with
    distinct := outbox.1
    keyed := outbox.2
    version := fun after isAfter => ⟨page, isPage, ?_⟩
    delivering := fun delivery isDelivery => ?_
    settled := fun missing => nomatch leased.symm.trans missing }
  · obtain rfl := Option.some.inj (leased.symm.trans isAfter)
    exact version
  · obtain rfl := Option.some.inj isDelivery
    refine ⟨here, fun other isOther => ?_, trivial, fun _ _ _ => trivial⟩
    obtain rfl := Option.some.inj (isPage.symm.trans isOther)
    exact Nat.le_of_eq version

theorem elsewhere {now : Clock} {event : MirrorEvent}
    (other : Elsewhere itemImageID now world.mirrors event) :
    Mirrored annotationsFromPage itemImageID
      { world with mirrors := event.apply now world.mirrors } := by
  have untouched : ∀ {delivery : AnnotationMirrorDelivery}, delivery.itemImageID ≠ itemImageID →
      ∀ row, rowOf itemImageID world.mirrors = some row → deliveredBy delivery row = false := by
    intro delivery apart row found
    by_contra held
    have isID := (Row.heldBy_iff.mp (deliveredBy_heldBy (by simpa using held))).1
    rw [mirrored.keyed row (rowOf_some found).1, (rowOf_some found).2] at isID
    exact apart isID.symm
  have alone : rowOf itemImageID (event.apply now world.mirrors) = rowOf itemImageID world.mirrors →
      Mirrored annotationsFromPage itemImageID
          { world with mirrors := event.apply now world.mirrors } :=
    fun same => mirrored.rewritten event (fun _ => rfl) (same.trans Option.map_id_apply.symm)
  cases event with
  | publish published revision payload =>
    exact alone (rowOf_upsert_ne other (fun row => by split <;> rfl) rfl)
  | claim leaseDuration leaseOwner locked =>
    refine mirrored.rewritten (.claim leaseDuration leaseOwner locked) (fun row => ?_)
      (rowOf_claim_other mirrored.distinct failExhaustedAnnotationMirror_keeps fun row answer => ?_)
    · split <;> rfl
    · exact other _ (claimAnnotationMirror_some.mpr ⟨row, answer, rfl⟩)
  | complete delivery =>
    refine alone ((rowOf_delete mirrored.distinct.keys).trans ?_)
    cases found : rowOf itemImageID world.mirrors with
    | none => rfl
    | some row => simp [untouched other row found]
  | retry delivery message nextAttempt =>
    have retried := @rowOf_update _ _ _ world.mirrors itemImageID (deliveredBy delivery)
      (retriedAnnotationMirror now message nextAttempt) fun _ => rfl
    refine alone (retried.trans ?_)
    cases found : rowOf itemImageID world.mirrors with
    | none => rfl
    | some row => simp [untouched other row found]

end

end Mirrored

/-! ### Publications -/

section Publish

variable {now : Clock} {canonical : Publication} {next : MirrorWorld}

theorem annotationIDsFromPublishedPage_ok {payload : String} {children : List ResourceDocument}
    (blank : annotationsFromPage "" = none) (decoded : annotationsFromPage payload = some children) :
    annotationIDsFromPublishedPage annotationsFromPage payload = .ok (childIDs children) := by
  have filled : payload ≠ "" := by
    intro isBlank
    rw [isBlank, blank] at decoded
    cases decoded
  rw [annotationIDsFromPublishedPage, if_neg filled, decoded]
  rfl

theorem previousIDs_ok (blank : annotationsFromPage "" = none)
    (decoded : ∀ page, world.published = some page → annotationsFromPage page.payload ≠ none) :
    annotationIDsFromPublishedPage annotationsFromPage (world.published.elim "" (·.payload)) =
      .ok (childIDs (world.children annotationsFromPage)) := by
  cases published : world.published with
  | none =>
    simp [MirrorWorld.children, published, annotationIDsFromPublishedPage, childIDs, pure, Except.pure]
  | some page =>
    obtain ⟨children, isChildren⟩ := Option.ne_none_iff_exists'.mp (decoded page published)
    have same : world.children annotationsFromPage = children := by
      simp [MirrorWorld.children, published, isChildren]
    rw [same]
    exact annotationIDsFromPublishedPage_ok blank isChildren

inductive Published (annotationsFromPage : String → Option (List ResourceDocument))
    (itemImageID : Nat) (now : Clock) (canonical : Publication) (world : MirrorWorld) :
    MirrorWorld → Prop where
  | already : Published annotationsFromPage itemImageID now canonical world world
  | anew {children : List ResourceDocument} {tombstones : List String}
      (decoded : annotationsFromPage canonical.payload = some children)
      (newer : ∀ page, world.published = some page → page.revision < canonical.revision)
      (stale : ∀ id, id ∈ tombstones ↔
        Covers (world.children annotationsFromPage) world.tombstones id ∧ id ∉ childIDs children) :
      Published annotationsFromPage itemImageID now canonical world
        { world with
          published := some canonical
          tombstones := tombstones
          mirrors := upsertAnnotationMirrorOutbox now itemImageID canonical.revision
            canonical.payload world.mirrors
          members := world.members ++ childIDs children }

theorem publishMirror_ok (blank : annotationsFromPage "" = none)
    (before : ∀ page, world.published = some page → annotationsFromPage page.payload ≠ none)
    (done : publishMirror annotationsFromPage now itemImageID canonical world = .ok next) :
    Published annotationsFromPage itemImageID now canonical world next := by
  rw [publishMirror] at done
  split at done
  case isTrue =>
    obtain rfl := Attempt.pure_ok_iff.mp done
    exact .already
  case isFalse differs =>
    simp only [Attempt.bind_ok_iff, refuse_ok_iff, Attempt.pure_ok_iff, exists_const,
      replaceAnnotationMirrorTombstones, previousIDs_ok blank before, Except.ok.injEq,
      exists_eq_left'] at done
    obtain ⟨valid, newer, tombstones, ⟨ids, isIDs, rfl⟩, members, isMembers, rfl⟩ := done
    rw [Option.isNone_iff_eq_none] at valid
    obtain ⟨children, decoded⟩ := Option.ne_none_iff_exists'.mp valid
    rw [annotationIDsFromPublishedPage_ok blank decoded] at isIDs isMembers
    obtain rfl := Except.ok.inj isIDs
    obtain rfl := Except.ok.inj isMembers
    refine .anew decoded (fun page isPage => ?_) fun id => ?_
    · simp only [isPage, Option.any_some, decide_eq_true_eq] at differs newer
      omega
    · simp only [mem_filter, mem_append, decide_eq_true_eq, Covers]
      by_cases listed : id ∈ world.tombstones <;> simp [listed]

end Publish

namespace Mirrored

theorem covers_publish {children fresh : List ResourceDocument}
    {tombstones stale : List String} {id : String}
    (isStale : ∀ id, id ∈ stale ↔ Covers children tombstones id ∧ id ∉ childIDs fresh)
    (covers : Covers children tombstones id) : Covers fresh stale id := by
  by_cases member : id ∈ childIDs fresh
  · exact .inl member
  · exact .inr ((isStale id).mpr ⟨covers, member⟩)

section
variable {claim : AnnotationMirrorDelivery} (mirrored : Mirrored annotationsFromPage itemImageID world)
include mirrored

theorem publish {now : Clock} {canonical : Publication}
    {next : MirrorWorld}
    (published : Published annotationsFromPage itemImageID now canonical world next) :
    Mirrored annotationsFromPage itemImageID next := by
  cases published with
  | already => exact mirrored
  | @anew children tombstones decoded newer stale =>
    have same : ({ world with
        published := some canonical
        tombstones := tombstones
        mirrors := upsertAnnotationMirrorOutbox now itemImageID canonical.revision
          canonical.payload world.mirrors
        members := world.members ++ childIDs children } : MirrorWorld).children
            annotationsFromPage = children := by
      simp [MirrorWorld.children, decoded]
    -- the outbox row is of the new revision
    have version :
        ∃ row, rowOf itemImageID (upsertAnnotationMirrorOutbox now itemImageID canonical.revision
        canonical.payload world.mirrors) = some row ∧ row.version = canonical.revision := by
      cases found : rowOf itemImageID world.mirrors with
      | none => exact ⟨_, rowOf_upsert_none rfl found, rfl⟩
      | some row =>
        obtain ⟨page, isPage, isVersion⟩ := mirrored.version row found
        have older : row.version < canonical.revision := isVersion ▸ newer page isPage
        refine ⟨_, rowOf_upsert_some (fun row => by split <;> rfl) found, ?_⟩
        rw [if_pos older]
    obtain ⟨row, present, isVersion⟩ := version
    have outbox := mirrored.outbox now (.publish itemImageID canonical.revision canonical.payload)
    refine { mirrored with
      distinct := outbox.1
      keyed := outbox.2
      version :=
        fun other found => ⟨canonical, rfl, Option.some.inj (present.symm.trans found) ▸ isVersion⟩
      decoded := fun page isPage => Option.some.inj isPage ▸ decoded ▸ Option.some_ne_none _
      apart := fun id member => same ▸ ((stale id).mp member).2
      covered := fun id member shown => ?_
      delivering := fun delivery running => ?_
      settled := fun missing => nomatch present.symm.trans missing }
    · rw [same]
      rcases mem_append.mp member with old | new
      · exact covers_publish stale (mirrored.covered id old shown)
      · exact .inl new
    · have before := mirrored.delivering delivery running
      obtain ⟨old, isOld⟩ := Option.ne_none_iff_exists'.mp (mirrored.row_of_delivery running)
      obtain ⟨page, isPage, _⟩ := mirrored.version old isOld
      have behind := Nat.lt_of_le_of_lt (before.behind page isPage) (newer page isPage)
      refine ⟨before.image, fun other isOther => ?_, ?_, fun other isOther sameRevision => ?_⟩
      · obtain rfl := Option.some.inj isOther
        exact Nat.le_of_lt behind
      · rw [same]
        exact before.safe.mono fun id => covers_publish stale
      · obtain rfl := Option.some.inj isOther
        exact absurd sameRevision (Nat.ne_of_lt behind)

theorem load {page : Publication} {children : List ResourceDocument}
    (running : world.delivery = some ⟨claim, .claimed⟩) (isPage : world.published = some page)
    (decoded : annotationsFromPage page.payload = some children)
    (distinct : (children.map (·.id)).Nodup) :
    Mirrored annotationsFromPage itemImageID
      { world with delivery := some ⟨claim, .loaded children⟩ } := by
  have same : world.children annotationsFromPage = children := by
    simp [MirrorWorld.children, isPage, decoded]
  refine mirrored.advance running (.loaded children) (fun _ member => member) mirrored.covered
    (fun _ => ?_) fun _ => ?_
  · intro child member
    exact .inl (same ▸ mem_map_of_mem member)
  · exact ⟨same.symm, same ▸ distinct⟩

theorem loadTombstones {desired : List ResourceDocument}
    (running : world.delivery = some ⟨claim, .loaded desired⟩) :
    Mirrored annotationsFromPage itemImageID { world with
      delivery := some ⟨claim, .putting desired desired
        (world.tombstones.filter fun id => id ∉ desired.map (·.id))⟩ } := by
  refine mirrored.advance running _ (fun _ member => member) mirrored.covered (fun safe => safe)
    fun current => ?_
  obtain ⟨rfl, distinct⟩ := current
  refine ⟨rfl, distinct, fun _ member => member, fun id member => ?_, fun id member => ?_,
    fun child member absent => absurd member absent⟩
  · exact mem_filter.mpr ⟨member, decide_eq_true (mirrored.apart id member)⟩
  · exact of_decide_eq_true (mem_filter.mp member).2

theorem put {desired todo : List ResourceDocument} {removed : List String}
    (running : world.delivery = some ⟨claim, .putting desired todo removed⟩) {child : ResourceDocument}
    (pending : child ∈ todo) :
    Mirrored annotationsFromPage itemImageID { world with
      remote := Function.update world.remote child.id (some child.payload)
      delivery := some ⟨claim, .putting desired (todo.erase child) removed⟩ } := by
  have safe : ∀ child ∈ todo, Covers _ _ child.id := (mirrored.delivering _ running).safe
  refine mirrored.advance running _ (fun _ member => member) (fun id member shown => ?_)
    (fun safe => ?_) fun current => ?_
  · by_cases isChild : id = child.id
    · exact isChild ▸ safe child pending
    · rw [Function.update_of_ne isChild] at shown
      exact mirrored.covered id member shown
  · exact fun other member => safe other (mem_of_mem_erase member)
  · obtain ⟨isDesired, distinct, subset, listed, removable, written⟩ := current
    refine ⟨isDesired, distinct, fun other member => subset other (mem_of_mem_erase member),
      listed, removable, fun other member gone => ?_⟩
    by_cases same : other.id = child.id
    · -- the page has one annotation with this id
      obtain rfl := inj_on_of_nodup_map distinct member (subset child pending) same
      exact Function.update_self ..
    · rw [Function.update_of_ne same]
      refine written other member fun here => gone ((mem_erase_of_ne fun isChild => same ?_).mpr here)
      rw [isChild]

theorem putParents {desired : List ResourceDocument} {removed : List String}
    (running : world.delivery = some ⟨claim, .putting desired [] removed⟩) :
    Mirrored annotationsFromPage itemImageID
      { world with delivery := some ⟨claim, .deleting removed removed⟩ } := by
  refine mirrored.advance running _ (fun _ member => member) mirrored.covered (fun _ => ?_)
    fun current => ?_
  · exact fun id member absent => absurd member absent
  · obtain ⟨_, _, _, listed, removable, written⟩ := current
    exact ⟨fun child member => written child member not_mem_nil, fun _ member => member,
      listed, removable⟩

theorem delete {todo removed : List String}
    (running : world.delivery = some ⟨claim, .deleting todo removed⟩) {id : String}
    (pending : id ∈ todo) : Mirrored annotationsFromPage itemImageID { world with
      remote := Function.update world.remote id none
      delivery := some ⟨claim, .deleting (todo.erase id) removed⟩ } := by
  refine mirrored.advance running _ (fun _ member => member) (fun other member shown => ?_)
    (fun safe => ?_) fun current => ?_
  · by_cases same : other = id
    · rw [same, Function.update_self] at shown
      exact absurd rfl shown
    · rw [Function.update_of_ne same] at shown
      exact mirrored.covered other member shown
  · intro other member gone
    by_cases same : other = id
    · rw [same, Function.update_self]
    · rw [Function.update_of_ne same]
      exact safe other member fun here => gone ((mem_erase_of_ne same).mpr here)
  · obtain ⟨shows, subset, listed, removable⟩ := current
    refine ⟨fun child member => ?_, fun other member => subset other (mem_of_mem_erase member),
      listed, removable⟩
    have apart : child.id ≠ id := by
      intro same
      exact removable id (subset id pending) (same ▸ mem_map_of_mem member)
    rw [Function.update_of_ne apart]
    exact shows child member

theorem acknowledge {removed : List String}
    (running : world.delivery = some ⟨claim, .deleting [] removed⟩) :
    Mirrored annotationsFromPage itemImageID { world with
      tombstones := acknowledgeAnnotationMirrorTombstones removed world.tombstones
      delivery := some ⟨claim, .acknowledged⟩ } := by
  have deleted : ∀ id ∈ removed, id ∉ [] →
    world.remote id = none := (mirrored.delivering _ running).safe
  refine mirrored.advance running _ (fun id member => (mem_filter.mp member).1)
    (fun id member shown => ?_)
    (fun _ => trivial) fun current => ?_
  · rcases mirrored.covered id member shown with here | listed
    · exact .inl here
    · refine .inr (mem_filter.mpr ⟨listed, decide_eq_true fun isRemoved => ?_⟩)
      exact shown (deleted id isRemoved not_mem_nil)
  · obtain ⟨shows, _, listed, _⟩ := current
    refine ⟨shows, filter_eq_nil_iff.mpr fun id member => ?_⟩
    simpa using listed id member

end

theorem step (blank : annotationsFromPage "" = none)
    (mirrored : Mirrored annotationsFromPage itemImageID world)
    {next : MirrorWorld} (stepped : MirrorStep annotationsFromPage itemImageID world next) :
    Mirrored annotationsFromPage itemImageID next := by
  cases stepped with
  | publish now canonical done => exact mirrored.publish (publishMirror_ok blank mirrored.decoded done)
  | elsewhere now event other => exact mirrored.elsewhere other
  | claim now leaseDuration leaseOwner locked idle claimed here => exact mirrored.claim claimed here
  | load running isPage decoded distinct => exact mirrored.load running isPage decoded distinct
  | loadTombstones running => exact mirrored.loadTombstones running
  | put running child pending => exact mirrored.put running pending
  | putParents running => exact mirrored.putParents running
  | delete running id pending => exact mirrored.delete running pending
  | acknowledge running => exact mirrored.acknowledge running
  | complete running => exact mirrored.complete running
  | retry now message nextAttempt running => exact mirrored.retry _ now message nextAttempt
  | crash => exact mirrored.crash

theorem reached (blank : annotationsFromPage "" = none)
    (arrives : MirrorWorldReached annotationsFromPage itemImageID world) :
    Mirrored annotationsFromPage itemImageID world := by
  obtain ⟨remote, run⟩ := arrives
  induction run with
  | refl => exact .start remote
  | tail _ stepped ih => exact ih.step blank stepped

end Mirrored

end Invariant

/-- Whenever an image has no outbox row, and then no delivery is in progress either, the remote
store holds the annotations of its published page, each with its published content, and no other
annotation that was ever on a published page. -/
theorem mirror_converges (annotationsFromPage : String → Option (List ResourceDocument))
    (blank : annotationsFromPage "" = none) (itemImageID : Nat) (world : MirrorWorld)
    (reached : MirrorWorldReached annotationsFromPage itemImageID world)
    (delivered : rowOf itemImageID world.mirrors = none) (page : Publication)
    (published : world.published = some page) :
    world.delivery = none ∧ ∃ children, annotationsFromPage page.payload = some children ∧
      (∀ child ∈ children, world.remote child.id = some child.payload) ∧
      ∀ id ∈ world.members, id ∉ childIDs children → world.remote id = none := by
  have mirrored := Mirrored.reached blank reached
  obtain ⟨children, decoded⟩ := Option.ne_none_iff_exists'.mp (mirrored.decoded page published)
  have same : world.children annotationsFromPage = children := by
    simp [MirrorWorld.children, published, decoded]
  obtain ⟨idle, none, shows⟩ := mirrored.settled delivered
  rw [same] at shows
  refine ⟨idle, children, decoded, shows, fun id member removed => ?_⟩
  by_contra shown
  rcases mirrored.covered id member shown with here | listed
  · exact removed (same ▸ here)
  · rw [none] at listed
    cases listed

/-! Two publications, the second without the annotation of the first, and one delivery. -/

def onePage (payload : String) : Option (List ResourceDocument) :=
  if payload = "" then none else some [⟨"annotation-" ++ payload, payload⟩]

def oncePublished : MirrorWorld :=
  { mirrors := upsertAnnotationMirrorOutbox 0 7 1 "a" []
    published := some ⟨1, "a"⟩
    tombstones := []
    remote := fun id => if id = "annotation-a" then some "a" else none
    delivery := none
    members := ["annotation-a"] }

def twicePublished : MirrorWorld :=
  { oncePublished with
    mirrors := upsertAnnotationMirrorOutbox 1000000 7 2 "b" oncePublished.mirrors
    published := some ⟨2, "b"⟩
    tombstones := ["annotation-a"]
    members := ["annotation-a", "annotation-b"] }

theorem twicePublished_reached : MirrorWorldReached onePage 7 twicePublished := by
  have first : MirrorStep onePage 7 (.start oncePublished.remote) oncePublished :=
    .publish 0 ⟨1, "a"⟩ rfl
  have second : MirrorStep onePage 7 oncePublished twicePublished := .publish 1000000 ⟨2, "b"⟩ rfl
  exact ⟨oncePublished.remote, (Relation.ReflTransGen.single first).tail second⟩

theorem mirror_converges_after_removal :
    ∃ world, MirrorWorldReached onePage 7 world ∧ rowOf 7 world.mirrors = none ∧
      world.published = some ⟨2, "b"⟩ ∧ world.members = ["annotation-a", "annotation-b"] ∧
      world.remote "annotation-b" = some "b" ∧ world.remote "annotation-a" = none := by
  have claimed : (claimAnnotationMirror 2000000 30000000 mirrorWorker (fun _ => false)
      twicePublished.mirrors).1 =
      some ⟨7, 2, "b", "mirror-worker", 1, 20⟩ := by decide +kernel
  have decoded : onePage "b" = some [⟨"annotation-b", "b"⟩] := by decide +kernel
  obtain ⟨start, run⟩ := twicePublished_reached
  have run := run.tail (.claim 2000000 30000000 mirrorWorker (fun _ => false) rfl claimed rfl)
  have run := run.tail (.load rfl rfl decoded (by decide))
  have run := run.tail (.loadTombstones rfl)
  have run := run.tail (.put rfl ⟨"annotation-b", "b"⟩ (by decide))
  have run := run.tail (.putParents rfl)
  have run := run.tail (.delete rfl "annotation-a" (by decide +kernel))
  have run := run.tail (.acknowledge rfl)
  have run := run.tail (.complete rfl)
  have delivered : rowOf 7 (completeAnnotationMirror ⟨7, 2, "b", "mirror-worker", 1, 20⟩
      (claimAnnotationMirror 2000000
      30000000 mirrorWorker (fun _ => false) twicePublished.mirrors).2).2 = none := by decide +kernel
  obtain ⟨_, children, isChildren, shows, gone⟩ :=
    mirror_converges onePage rfl 7 _ ⟨start, run⟩ delivered ⟨2, "b"⟩ rfl
  obtain rfl := Option.some.inj (decoded.symm.trans isChildren)
  exact ⟨_, ⟨start, run⟩, delivered, rfl, rfl, shows _ mem_cons_self,
    gone "annotation-a" (by decide) (by decide)⟩

end Scribe.Server
