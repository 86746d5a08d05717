import Colony.Defs.Core.Event
import Mathlib.Data.List.Sort
import Mathlib.Data.Prod.Lex
import Mathlib.Data.Int.Order.Basic

namespace Colony.Push

open Colony.Core Colony.Data

structure Address where
  community : CommunityId
  author : PublicKey
  installation : String
  deriving DecidableEq

abbrev EndpointHash := BitVec 256

inductive WakeClass
  | silent
  | default
  | timeSensitive
  | urgent
  deriving DecidableEq

structure LeaseVersion where
  sourceEventId : EventId
  sourceCreatedAt : Int
  generation : Int
  expiresAt : Int
  deriving DecidableEq

structure ActiveLease where
  appProfile : String
  endpointHash : EndpointHash
  endpointGrant : String
  maxClass : WakeClass
  subscriptions : String
  deriving DecidableEq

structure Lease where
  version : LeaseVersion
  active : Option ActiveLease
  endpointEnabled : Bool
  deriving DecidableEq

abbrev EventKey := CommunityId × EventId

instance : LawfulBEq EventKey := inferInstance

structure EventRow where
  kind : Nat
  pubkey : PublicKey
  dTag : Option String
  receivedAt : Int
  deletedAt : Option Int
  deriving DecidableEq

inductive WakeState
  | pending
  | sending
  | delivered
  | failed
  deriving DecidableEq

structure Wake where
  community : CommunityId
  id : Uuid
  author : PublicKey
  installation : String
  leaseGeneration : Int
  endpointHash : EndpointHash
  eventId : EventId
  wakeClass : WakeClass
  expiresAt : Int
  state : WakeState
  attempts : Nat
  nextAttemptAt : Int
  leaseUntil : Option Int
  claimId : Option Uuid
  createdAt : Int
  deriving DecidableEq

def Wake.key (w : Wake) : CommunityId × EndpointHash × EventId :=
  (w.community, w.endpointHash, w.eventId)

def Wake.address (w : Wake) : Address := ⟨w.community, w.author, w.installation⟩

structure Db where
  leases : Dict Address Lease
  events : Dict EventKey EventRow
  queue : List EventKey
  outbox : List Wake

def Db.empty : Db := ⟨∅, ∅, [], []⟩

inductive Write
  | lease (a : Address) (l : Lease)
  | event (k : EventKey) (row : EventRow)
  | job (k : EventKey)
  | wake (w : Wake)

def Db.write (db : Db) : Write → Db
  | .lease a l => { db with leases := db.leases.insert a l }
  | .event k row => { db with events := db.events.insert k row }
  | .job k => { db with queue := db.queue ++ [k] }
  | .wake w => { db with outbox := db.outbox ++ [w] }

def epoch (now : Int) : Int := (now + 500000) / 1000000

def LeaseVersion.winsEvent (v current : LeaseVersion) : Bool :=
  v.sourceCreatedAt > current.sourceCreatedAt ∨
    v.sourceCreatedAt = current.sourceCreatedAt ∧
      v.sourceEventId.bits.toNat < current.sourceEventId.bits.toNat

def LeaseVersion.beats (v current : LeaseVersion) : Bool :=
  v.winsEvent current ∧ current.generation < v.generation

def Lease.effective (l : Lease) (now : Int) : Bool :=
  l.active.isSome ∧ l.endpointEnabled ∧ epoch now < l.version.expiresAt

def Lease.deactivate (l : Lease) : Lease := { l with active := none, endpointEnabled := false }

def Db.leasesOf (db : Db) (community : CommunityId) (author : PublicKey) : List (Address × Lease) :=
  (db.leases.entries.map fun e => (e.1, e.2)).filter fun e =>
    e.1.community = community ∧ e.1.author = author

def Db.expired (db : Db) (community : CommunityId) (author : PublicKey) (now : Int) :
    List (Address × Lease) :=
  (db.leasesOf community author).filter fun e =>
    e.2.active.isSome ∧ e.2.version.expiresAt ≤ epoch now

def Db.activeOthers (db : Db) (a : Address) : List (Address × Lease) :=
  (db.leasesOf a.community a.author).filter fun e =>
    e.2.active.isSome ∧ e.1.installation ≠ a.installation

def ActiveLease.sameEndpoint (x y : ActiveLease) : Bool :=
  x.appProfile = y.appProfile ∧ x.endpointHash = y.endpointHash

def Db.endpointTaken (db : Db) (a : Address) (active : ActiveLease) : Bool :=
  (db.activeOthers a).any fun e => e.2.active.any active.sameEndpoint

def Db.sourceLeases (db : Db) (community : CommunityId) (source : EventId) : List (Address × Lease) :=
  (db.leases.entries.map fun e => (e.1, e.2)).filter fun e =>
    e.1.community = community ∧ e.2.version.sourceEventId = source

def Db.leaseAllowed (db : Db) (a : Address) (l : Lease) : Bool :=
  0 < l.version.generation ∧ 1 ≤ a.installation.utf8ByteSize ∧ a.installation.utf8ByteSize ≤ 64 ∧
    (db.sourceLeases a.community l.version.sourceEventId).all (fun e => e.1 = a) ∧
    l.active.all fun active => !db.endpointTaken a active

def eligibleKinds : List Nat := [9, 40002, 45001, 45003]

def pushGateBackfillSecs : Int := 120

def Db.gateOpen (db : Db) (community : CommunityId) (now : Int) : Bool :=
  db.leases.entries.any fun e => e.1.community = community ∧ e.2.effective now

def Db.backfillJobs (db : Db) (community : CommunityId) (now : Int) : List EventKey :=
  (db.events.entries.filter fun e =>
    e.1.1 = community ∧ e.2.kind ∈ eligibleKinds ∧ e.2.deletedAt = none ∧
      e.2.receivedAt > now - pushGateBackfillSecs * 1000000 ∧ e.1 ∉ db.queue).map Sigma.fst

structure WakeRequest where
  author : PublicKey
  installation : String
  leaseGeneration : Int
  eventId : EventId
  wakeClass : WakeClass
  expiresAt : Int
  deriving DecidableEq

def WakeRequest.address (r : WakeRequest) (community : CommunityId) : Address :=
  ⟨community, r.author, r.installation⟩

/-- The endpoint of the request's current lease, if that has the request's generation. -/
def Db.resolve (db : Db) (community : CommunityId) (now : Int) (r : WakeRequest) :
    Option EndpointHash :=
  match db.leases.lookup (r.address community) with
  | none => none
  | some l =>
    if l.effective now ∧ l.version.generation = r.leaseGeneration then
      l.active.map ActiveLease.endpointHash
    else none

def newWake (community : CommunityId) (now : Int) (r : WakeRequest) (endpoint : EndpointHash)
    (id : Uuid) : Wake where
  community
  id
  author := r.author
  installation := r.installation
  leaseGeneration := r.leaseGeneration
  endpointHash := endpoint
  eventId := r.eventId
  wakeClass := r.wakeClass
  expiresAt := r.expiresAt
  state := .pending
  attempts := 0
  nextAttemptAt := now
  leaseUntil := none
  claimId := none
  createdAt := now

/-- The multi-row insert: the rows whose key is not there yet, each with its generated id. -/
def newWakes (community : CommunityId) (now : Int) (outbox : List Wake) :
    List (WakeRequest × EndpointHash) → List Uuid → List Wake
  | (r, endpoint) :: rest, id :: ids =>
    if outbox.any fun w => w.key = (community, endpoint, r.eventId) then
      newWakes community now outbox rest ids
    else
      let w := newWake community now r endpoint id
      w :: newWakes community now (outbox ++ [w]) rest ids
  | _, _ => []

def Db.deliverable (db : Db) (w : Wake) (now : Int) : Bool :=
  (db.leases.lookup w.address).any (fun l =>
    l.version.generation = w.leaseGeneration ∧
      l.active.any (fun active => active.endpointHash = w.endpointHash) ∧ l.effective now) ∧
  (db.events.lookup (w.community, w.eventId)).any (fun e => e.deletedAt = none) ∧
  epoch now < w.expiresAt

def Wake.due (w : Wake) (now : Int) : Bool :=
  w.nextAttemptAt ≤ now ∧
    (w.state = .pending ∨ w.state = .sending ∧ w.leaseUntil.any fun u => u < now)

def Wake.before (w w' : Wake) : Prop :=
  toLex (w.nextAttemptAt, toLex (w.createdAt, w.id.bits.toNat)) ≤
    toLex (w'.nextAttemptAt, toLex (w'.createdAt, w'.id.bits.toNat))

instance (w w' : Wake) : Decidable (w.before w') := inferInstanceAs (Decidable (_ ≤ _))

def Db.claimed (db : Db) (community : CommunityId) (limit : Nat) (now : Int) (skipped : List Uuid) :
    List Uuid :=
  (((db.outbox.filter fun w =>
      w.community = community ∧ w.due now ∧ db.deliverable w now ∧ w.id ∉ skipped).insertionSort
    Wake.before).take limit).map Wake.id

def Wake.claim (w : Wake) (claimId : Uuid) (leaseUntil : Int) : Wake :=
  { w with
    state := .sending
    claimId := some claimId
    leaseUntil := some leaseUntil
    attempts := w.attempts + 1 }

def Db.claimDueWakes (db : Db) (community : CommunityId) (limit : Nat) (claimId : Uuid)
    (leaseUntil now : Int) (skipped : List Uuid) : Db :=
  let ids := db.claimed community limit now skipped
  { db with outbox := db.outbox.map fun w =>
      if w.community = community ∧ w.id ∈ ids then w.claim claimId leaseUntil else w }

def Wake.isClaimedBy (w : Wake) (community : CommunityId) (id claimId : Uuid) : Bool :=
  w.community = community ∧ w.id = id ∧ w.claimId = some claimId ∧ w.state = .sending

def Db.updateClaim (db : Db) (community : CommunityId) (id claimId : Uuid) (f : Wake → Wake) : Db :=
  { db with outbox := db.outbox.map fun w =>
      if w.isClaimedBy community id claimId then
        { f w with claimId := none, leaseUntil := none }
      else w }

def Db.completeWake (db : Db) (community : CommunityId) (id claimId : Uuid) : Db :=
  db.updateClaim community id claimId fun w => { w with state := .delivered }

def Db.retryWake (db : Db) (community : CommunityId) (id claimId : Uuid) (nextAttemptAt : Int) : Db :=
  db.updateClaim community id claimId fun w => { w with state := .pending, nextAttemptAt }

def Db.failWake (db : Db) (community : CommunityId) (id claimId : Uuid) : Db :=
  db.updateClaim community id claimId fun w => { w with state := .failed }

def Db.disableEndpointGeneration (db : Db) (a : Address) (generation : Int) : Db :=
  match db.leases.lookup a with
  | none => db
  | some l =>
    if l.version.generation = generation ∧ l.active.isSome ∧ l.endpointEnabled then
      { db with leases := db.leases.insert a { l with endpointEnabled := false } }
    else db

end Colony.Push
