import Colony.Defs.Data.Transactions
import Colony.Defs.Push.Store

/-! The transactions on the push tables, statement by statement: an event with the trigger that
queues its match job, the two ways to change a lease, and a batch of wakes.  Advisory locks are
held to the end of the transaction, and so are those of rows and of unique keys. -/

namespace Colony.Push

open Colony.Core Colony.Data

structure LeaseRequest where
  address : Address
  eventId : EventId
  version : LeaseVersion
  active : Option ActiveLease
  maxActiveLeases : Int
  deriving DecidableEq

inductive Request
  | insertEvent (key : EventKey) (row : EventRow)
  | acceptLeaseEvent (r : LeaseRequest)
  | replaceLease (a : Address) (version : LeaseVersion) (active : Option ActiveLease)
  -- `ids` are the generated ones.
  | enqueueWakes (community : CommunityId) (requests : List WakeRequest) (ids : List Uuid)
  deriving DecidableEq

inductive Stmt
  | lock (key : Int)
  | gate (community : CommunityId) (exclusive : Bool)
  | sourceEventFree (community : CommunityId) (source : EventId)
  | winsAddress (a : Address) (version : LeaseVersion)
  | expireLeases (community : CommunityId) (author : PublicKey)
  | quota (a : Address) (max : Int)
  | endpointFree (a : Address) (active : ActiveLease)
  | leaseEvent (a : Address) (id : EventId)
  | upsertLease (a : Address) (l : Lease)
  | replaceLease (a : Address) (l : Lease)
  | backfill (community : CommunityId)
  | insertEvent (key : EventKey) (row : EventRow)
  | enqueueMatchJob (key : EventKey)
  | lockLeases (community : CommunityId) (requests : List WakeRequest)
  | insertWakes (community : CommunityId) (ids : List Uuid)
  deriving DecidableEq

structure Keys where
  address : Address → Int
  author : CommunityId → PublicKey → Int
  gate : CommunityId → Int

variable (K : Keys)

def acceptScript (r : LeaseRequest) : List Stmt :=
  let a := r.address
  [.lock (K.address a), .lock (K.author a.community a.author)] ++
    (if r.active.isSome then [.gate a.community true] else []) ++
    [.sourceEventFree a.community r.version.sourceEventId, .winsAddress a r.version,
      .expireLeases a.community a.author] ++
    (match r.active with
      | some active => [.quota a r.maxActiveLeases, .endpointFree a active]
      | none => []) ++
    [.leaseEvent a r.eventId, .upsertLease a ⟨r.version, r.active, true⟩] ++
    (if r.active.isSome then [.backfill a.community] else [])

def script : Request → List Stmt
  | .insertEvent key row =>
    .insertEvent key row ::
      if row.kind ∈ eligibleKinds then [.gate key.1 false, .enqueueMatchJob key] else []
  | .acceptLeaseEvent r => acceptScript K r
  | .replaceLease a version active =>
    (if active.isSome then [.gate a.community true] else []) ++
      [.replaceLease a ⟨version, active, true⟩] ++
      (if active.isSome then [.backfill a.community] else [])
  | .enqueueWakes community requests ids =>
    [.lockLeases community requests, .insertWakes community ids]

inductive Lock
  | advisory (key : Int) (exclusive : Bool)
  | lease (a : Address)
  | source (community : CommunityId) (id : EventId)
  | endpoint (community : CommunityId) (author : PublicKey) (profile : String) (hash : EndpointHash)
  | event (k : EventKey)
  | job (k : EventKey)
  | wake (key : CommunityId × EndpointHash × EventId)
  | wakeId (community : CommunityId) (id : Uuid)
  deriving DecidableEq

def Lock.conflicts : Lock → Lock → Bool
  | .advisory k exclusive, .advisory k' exclusive' => k = k' ∧ (exclusive ∨ exclusive')
  | x, y => x = y

/-- `gate`, `read` and `readAt` are noted for the history: how many had passed the gate and committed
when this one took its lock, the tables at the statement that decides on match jobs, and which of
the committed states that statement saw. -/
structure Tx where
  now : Int
  request : Request
  passed : List Stmt
  rest : List Stmt
  held : List Lock
  writes : List Write
  resolved : List (WakeRequest × EndpointHash)
  gate : Nat
  read : Db
  readAt : Nat

structure Passage where
  community : CommunityId
  -- The event that was inserted, or the lease that became active.
  subject : EventId ⊕ Address × LeaseVersion
  now : Int
  gate : Nat
  read : Db
  readAt : Nat
  doneAt : Nat
  jobs : List EventKey

def Passage.exclusive (x : Passage) : Bool := x.subject.isRight

/-- `states` are the tables after every commit and every other call, oldest first. -/
structure Store where
  db : Db
  clock : Int
  history : List Passage
  states : List Db

def view (s : Store) (t : Tx) : Db := t.writes.foldl Db.write s.db

def Tx.adds (t : Tx) (writes : List Write) : Tx := { t with writes := t.writes ++ writes }

def leaseEventWrites (db : Db) (a : Address) (id : EventId) (now : Int) : List Write :=
  ((db.events.entries.filter fun e => e.1.1 = a.community ∧ e.2.kind = 30350 ∧
      e.2.pubkey = a.author ∧ e.2.dTag = some a.installation ∧ e.2.deletedAt = none).map fun e =>
    .event e.1 { e.2 with deletedAt := some now }) ++
  [.event (a.community, id) ⟨30350, a.author, some a.installation, now, none⟩]

def exec (s : Store) (t : Tx) : Stmt → Option Tx
  | .lock _ => some t
  | .gate _ _ => some { t with gate := s.history.length }
  | .sourceEventFree community source =>
    if ((view s t).sourceLeases community source).isEmpty then some t else none
  | .winsAddress a version =>
    if ((view s t).leases.lookup a).all fun l => version.beats l.version then some t else none
  | .expireLeases community author =>
    some (t.adds (((view s t).expired community author t.now).map fun e =>
      .lease e.1 e.2.deactivate))
  | .quota a max => if ((view s t).activeOthers a).length < max then some t else none
  | .endpointFree a active => if (view s t).endpointTaken a active then none else some t
  | .leaseEvent a id =>
    if ((view s t).events.lookup (a.community, id)).isSome then none
    else some (t.adds (leaseEventWrites (view s t) a id t.now))
  | .upsertLease a l =>
    if (view s t).leaseAllowed a l then some (t.adds [.lease a l]) else none
  | .replaceLease a l =>
    if (view s t).leaseAllowed a l ∧
        ((view s t).leases.lookup a).all (fun current => l.version.beats current.version) then
      some (t.adds [.lease a l])
    else none
  | .backfill community =>
    let jobs := (view s t).backfillJobs community t.now
    some { t.adds (jobs.map .job) with read := view s t, readAt := s.states.length - 1 }
  | .insertEvent key row =>
    if ((view s t).events.lookup key).isSome then none else some (t.adds [.event key row])
  | .enqueueMatchJob key =>
    let jobs := if (view s t).gateOpen key.1 t.now ∧ key ∉ (view s t).queue then [key] else []
    some { t.adds (jobs.map .job) with read := view s t, readAt := s.states.length - 1 }
  | .lockLeases community requests =>
    some { t with resolved := requests.filterMap fun r =>
      ((view s t).resolve community t.now r).map fun endpoint => (r, endpoint) }
  | .insertWakes community ids =>
    let wakes := newWakes community t.now (view s t).outbox t.resolved ids
    if wakes.all (fun w => (view s t).outbox.all fun w' =>
          !(w.community = w'.community ∧ w.id = w'.id)) ∧ (wakes.map Wake.id).Nodup then
      some (t.adds (wakes.map .wake))
    else none

def Write.locks : Write → List Lock
  | .lease a l =>
    [.lease a, .source a.community l.version.sourceEventId] ++
      (l.active.map fun x => .endpoint a.community a.author x.appProfile x.endpointHash).toList
  | .event k _ => [.event k]
  | .job k => [.job k]
  | .wake w => [.wake w.key, .wakeId w.community w.id]

def stmtLocks (s : Store) (t : Tx) : Stmt → List Lock
  | .lock key => [.advisory key true]
  | .gate community exclusive => [.advisory (K.gate community) exclusive]
  | .winsAddress a _ => if ((view s t).leases.lookup a).isSome then [.lease a] else []
  | .lockLeases community requests =>
    (requests.filter fun r => ((view s t).leases.lookup (r.address community)).any
      fun l => l.effective t.now).map fun r => .lease (r.address community)
  | _ => []

def passages (doneAt : Nat) (t : Tx) : List Passage :=
  let jobs := t.writes.filterMap fun w =>
    match w with
    | .job k => some k
    | _ => none
  match t.request with
  | .insertEvent key row =>
    if row.kind ∈ eligibleKinds then
      [⟨key.1, .inl key.2, t.now, t.gate, t.read, t.readAt, doneAt, jobs⟩]
    else []
  | .acceptLeaseEvent r =>
    if r.active.isSome then
      [⟨r.address.community, .inr (r.address, r.version), t.now, t.gate, t.read, t.readAt, doneAt, jobs⟩]
    else []
  | .replaceLease a version active =>
    if active.isSome then
      [⟨a.community, .inr (a, version), t.now, t.gate, t.read, t.readAt, doneAt, jobs⟩]
    else []
  | .enqueueWakes _ _ _ => []

inductive Env
  | tick (micros : Nat)
  | claimDueWakes (community : CommunityId) (limit : Nat) (claimId : Uuid) (leaseUntil : Int)
      (skipped : List Uuid)
  | completeWake (community : CommunityId) (id claimId : Uuid)
  | retryWake (community : CommunityId) (id claimId : Uuid) (nextAttemptAt : Int)
  | failWake (community : CommunityId) (id claimId : Uuid)
  | disableEndpointGeneration (a : Address) (generation : Int)
  -- Any other path that marks an event as deleted.
  | deleteEvent (k : EventKey)
  deriving DecidableEq

def envDb (s : Store) : Env → Db
  | .tick _ => s.db
  | .claimDueWakes community limit claimId leaseUntil skipped =>
    s.db.claimDueWakes community limit claimId leaseUntil s.clock skipped
  | .completeWake community id claimId => s.db.completeWake community id claimId
  | .retryWake community id claimId nextAttemptAt =>
    s.db.retryWake community id claimId nextAttemptAt
  | .failWake community id claimId => s.db.failWake community id claimId
  | .disableEndpointGeneration a generation => s.db.disableEndpointGeneration a generation
  | .deleteEvent k =>
    match s.db.events.lookup k with
    | none => s.db
    | some row => { s.db with events := s.db.events.insert k { row with deletedAt := some s.clock } }

def Env.micros : Env → Nat
  | .tick micros => micros
  | _ => 0

def Env.locks : Env → List Lock
  | .disableEndpointGeneration a _ => [.lease a]
  | .deleteEvent k => [.event k]
  | _ => []

def system : TxSystem Store Tx Request Env where
  start s r := some ⟨s.clock, r, [], script K r, [], [], [], 0, Db.empty, 0⟩
  next s t :=
    match t.rest with
    | [] => .commit
      { s with
        db := view s t
        history := s.history ++ passages s.states.length t
        states := s.states ++ [view s t] }
    | g :: rest =>
      match exec s t g with
      | none => .abort
      | some t' =>
        .go { t' with
          passed := t.passed ++ [g]
          rest := rest
          held := t.held ++ stmtLocks K s t g ++ (t'.writes.drop t.writes.length).flatMap Write.locks }
  clash t u := t.held.any fun x => u.held.any fun y => x.conflicts y
  env s e := { s with
    db := envDb s e
    clock := s.clock + e.micros
    states := s.states ++ [envDb s e] }
  blocked _ e t := e.locks.any fun x => t.held.any fun y => x.conflicts y

def start : TxState Store Tx := TxSystem.idle ⟨Db.empty, 0, [], [Db.empty]⟩

end Colony.Push
