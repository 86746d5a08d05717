import Colony.Defs.Core.Event
import Mathlib.Data.List.MinMax
import Mathlib.Data.List.Sort
import Mathlib.Data.Finset.Basic

namespace Colony.Acp

open Colony.Data Colony.Core

abbrev Instant := Nat
abbrev Duration := Nat

def Duration.fromSecs (n : Nat) : Duration := n * 1000000000

def MAX_PENDING_PER_SCOPE : Nat := 500
def MAX_PENDING_PER_CHANNEL : Nat := 500
def MAX_BATCH_EVENTS : Nat := 50
def MAX_RETRIES : Nat := 10
def BASE_RETRY_DELAY_SECS : Nat := 5
def MAX_RETRY_DELAY_SECS : Nat := 300
def IN_FLIGHT_DEADLINE_BUFFER_SECS : Nat := 100
def DEFAULT_IN_FLIGHT_DEADLINE_SECS : Nat := 7300

inductive SessionScope
  | conversation (channelId : Uuid)
  | thread (channelId : Uuid) (rootEventId : String)
  deriving DecidableEq

def SessionScope.channelId : SessionScope → Uuid
  | .conversation channelId => channelId
  | .thread channelId _ => channelId

theorem SessionScope.conversation_channelId (channelId : Uuid) :
    (SessionScope.conversation channelId).channelId = channelId := rfl

inductive DedupMode
  | drop
  | queue
  deriving DecidableEq

inductive CancelReason
  | interrupt
  | steer
  deriving DecidableEq

structure QueuedEvent where
  channelId : Uuid
  scope : SessionScope
  event : Event
  receivedAt : Instant
  promptTag : String
  scope_channelId : scope.channelId = channelId
  deriving DecidableEq

structure BatchEvent where
  event : Event
  promptTag : String
  receivedAt : Instant
  deriving DecidableEq

structure FlushBatch where
  channelId : Uuid
  scope : SessionScope
  events : List BatchEvent
  cancelledEvents : List BatchEvent
  cancelReason : Option CancelReason
  scope_channelId : scope.channelId = channelId
  deriving DecidableEq

def QueuedEvent.toBatch (qe : QueuedEvent) : BatchEvent := ⟨qe.event, qe.promptTag, qe.receivedAt⟩

def FlushBatch.toQueued (b : FlushBatch) (be : BatchEvent) : QueuedEvent :=
  ⟨b.channelId, b.scope, be.event, be.receivedAt, be.promptTag, b.scope_channelId⟩

structure EventQueue where
  queues : Dict SessionScope (List QueuedEvent)
  inFlightScopes : Finset SessionScope
  inFlightDeadlines : Dict SessionScope Instant
  inFlightBatchSizes : Dict SessionScope Nat
  retryAfter : Dict SessionScope Instant
  retryCounts : Dict SessionScope Nat
  dedupMode : DedupMode
  cancelledBatches : Dict SessionScope (List BatchEvent)
  cancelReasons : Dict SessionScope CancelReason
  withheldNativeSteer : Dict SessionScope (List QueuedEvent)
  inFlightDeadline : Duration
  -- What the depth caps have dropped so far; the source logs each one.
  evicted : List QueuedEvent

structure MapOrders where
  queues : IterOrder (Σ _ : SessionScope, List QueuedEvent)
  deadlines : IterOrder (Σ _ : SessionScope, Instant)
  cancelled : IterOrder (Σ _ : SessionScope, List BatchEvent)

def MapOrders.stored : MapOrders := ⟨.stored, .stored, .stored⟩

def headReceivedAt (queue : List QueuedEvent) : Instant :=
  match queue with
  | [] => 0
  | qe :: _ => qe.receivedAt

namespace EventQueue

def new (dedupMode : DedupMode) : EventQueue where
  queues := ∅
  inFlightScopes := ∅
  inFlightDeadlines := ∅
  inFlightBatchSizes := ∅
  retryAfter := ∅
  retryCounts := ∅
  dedupMode := dedupMode
  cancelledBatches := ∅
  cancelReasons := ∅
  withheldNativeSteer := ∅
  inFlightDeadline := Duration.fromSecs DEFAULT_IN_FLIGHT_DEADLINE_SECS
  evicted := []

def extendInFlightDeadline (q : EventQueue) (scope : SessionScope) (maxTurnSecs : Nat)
    (now : Instant) : EventQueue :=
  match q.inFlightDeadlines.lookup scope with
  | none => q
  | some current =>
    let extended := now + Duration.fromSecs (maxTurnSecs + IN_FLIGHT_DEADLINE_BUFFER_SECS)
    if extended > current then
      { q with inFlightDeadlines := q.inFlightDeadlines.insert scope extended }
    else q

def channelEventTotal (q : EventQueue) (channelId : Uuid) : Nat :=
  ((q.queues.entries.filter fun e => decide (e.1.channelId = channelId)).map fun e =>
    e.2.length).sum

def capVictim (q : EventQueue) (orders : MapOrders) (channelId : Uuid) : Option SessionScope :=
  (((orders.queues.order q.queues.entries).filter fun (e : Σ _ : SessionScope, List QueuedEvent) =>
    decide (e.1.channelId = channelId) && !e.2.isEmpty).argmin fun e => headReceivedAt e.2).map
      Sigma.fst

def evictFront (q : EventQueue) (scope : SessionScope) : EventQueue :=
  match q.queues.lookup scope with
  | none => q
  | some queue =>
    { q with
      queues := Dict.putBack q.queues scope (queue.drop 1)
      evicted := q.evicted ++ queue.take 1 }

def enforceLoop (orders : MapOrders) (channelId : Uuid) : Nat → EventQueue → EventQueue
  | 0, q => q
  | fuel + 1, q =>
    if q.channelEventTotal channelId > MAX_PENDING_PER_CHANNEL then
      match q.capVictim orders channelId with
      | none => q
      | some scope => enforceLoop orders channelId fuel (q.evictFront scope)
    else q

def enforceChannelCap (q : EventQueue) (orders : MapOrders) (channelId : Uuid) : EventQueue :=
  enforceLoop orders channelId (q.channelEventTotal channelId) q

def push (q : EventQueue) (orders : MapOrders) (event : QueuedEvent) : Bool × EventQueue :=
  if q.dedupMode = .drop ∧ event.scope ∈ q.inFlightScopes then (false, q)
  else
    let queue := Dict.getD q.queues event.scope []
    let full := decide (queue.length ≥ MAX_PENDING_PER_SCOPE)
    let kept := if full then queue.drop 1 else queue
    let dropped := if full then queue.take 1 else []
    let q := { q with
      queues := q.queues.insert event.scope (kept ++ [event])
      evicted := q.evicted ++ dropped }
    (true, q.enforceChannelCap orders event.channelId)

def pushFront (q : EventQueue) (scope : SessionScope) (events : List QueuedEvent) : EventQueue :=
  let queue := events ++ Dict.getD q.queues scope []
  { q with
    queues := q.queues.insert scope (queue.take MAX_PENDING_PER_SCOPE)
    evicted := q.evicted ++ queue.drop MAX_PENDING_PER_SCOPE }

def recoverWithheldForExpiredScope (q : EventQueue) (orders : MapOrders) (scope : SessionScope) :
    EventQueue :=
  match q.withheldNativeSteer.lookup scope with
  | none => q
  | some entries =>
    let q := { q with withheldNativeSteer := q.withheldNativeSteer.erase scope }
    (q.pushFront scope entries).enforceChannelCap orders scope.channelId

def expireScope (orders : MapOrders) (q : EventQueue) (scope : SessionScope) : EventQueue :=
  let q := { q with
    inFlightBatchSizes := q.inFlightBatchSizes.erase scope
    inFlightScopes := q.inFlightScopes.erase scope
    inFlightDeadlines := q.inFlightDeadlines.erase scope }
  q.recoverWithheldForExpiredScope orders scope

def expireInFlight (q : EventQueue) (orders : MapOrders) (now : Instant) : EventQueue :=
  let expired := ((orders.deadlines.order q.inFlightDeadlines.entries).filter
    fun (e : Σ _ : SessionScope, Instant) => decide (now ≥ e.2)).map Sigma.fst
  expired.foldl (expireScope orders) q

def flushable (q : EventQueue) (now : Instant) (e : Σ _ : SessionScope, List QueuedEvent) : Bool :=
  !e.2.isEmpty && !decide (e.1 ∈ q.inFlightScopes) &&
    (match q.retryAfter.lookup e.1 with
      | none => true
      | some t => decide (t ≤ now))

def nextScope (q : EventQueue) (orders : MapOrders) (now : Instant) : Option SessionScope :=
  (((orders.queues.order q.queues.entries).filter (q.flushable now)).argmin fun e =>
    headReceivedAt e.2).map Sigma.fst

def nextCancelledScope (q : EventQueue) (orders : MapOrders) : Option SessionScope :=
  ((orders.cancelled.order q.cancelledBatches.entries).find? fun e =>
    !decide (e.1 ∈ q.inFlightScopes)).map Sigma.fst

def startFlight (q : EventQueue) (scope : SessionScope) (now : Instant) (size : Nat) : EventQueue :=
  { q with
    inFlightScopes := insert scope q.inFlightScopes
    inFlightDeadlines := q.inFlightDeadlines.insert scope (now + q.inFlightDeadline)
    inFlightBatchSizes := q.inFlightBatchSizes.insert scope size }

/-- A cancelled batch with nothing new to merge it into is dispatched again as it was. -/
def flushCancelled (q : EventQueue) (scope : SessionScope) (now : Instant) :
    FlushBatch × EventQueue :=
  let cancelled := Dict.getD q.cancelledBatches scope []
  let cancelReason := q.cancelReasons.lookup scope
  let q := { q with
    cancelledBatches := q.cancelledBatches.erase scope
    cancelReasons := q.cancelReasons.erase scope }
  (⟨scope.channelId, scope, cancelled, [], cancelReason, rfl⟩,
    q.startFlight scope now cancelled.length)

def flushQueued (q : EventQueue) (scope : SessionScope) (now : Instant) : FlushBatch × EventQueue :=
  let queue := Dict.getD q.queues scope []
  let drainCount := min MAX_BATCH_EVENTS queue.length
  let events := ((queue.take drainCount).map QueuedEvent.toBatch).insertionSort
    fun a b => a.event.createdAt ≤ b.event.createdAt
  let q := { q with queues := Dict.putBack q.queues scope (queue.drop drainCount) }
  let q := q.startFlight scope now events.length
  let cancelledEvents := Dict.getD q.cancelledBatches scope []
  let cancelReason := if cancelledEvents.isEmpty then none else q.cancelReasons.lookup scope
  (⟨scope.channelId, scope, events, cancelledEvents, cancelReason, rfl⟩,
    { q with
      cancelledBatches := q.cancelledBatches.erase scope
      cancelReasons := q.cancelReasons.erase scope })

def flushNext (q : EventQueue) (orders : MapOrders) (now : Instant) :
    Option FlushBatch × EventQueue :=
  let q := q.expireInFlight orders now
  match q.nextScope orders now with
  | some scope =>
    let (batch, q) := q.flushQueued scope now
    (some batch, q)
  | none =>
    match q.nextCancelledScope orders with
    | some scope =>
      let (batch, q) := q.flushCancelled scope now
      (some batch, q)
    | none => (none, q)

def markComplete (q : EventQueue) (scope : SessionScope) (now : Instant) : EventQueue :=
  let q := { q with
    inFlightScopes := q.inFlightScopes.erase scope
    inFlightDeadlines := q.inFlightDeadlines.erase scope
    inFlightBatchSizes := q.inFlightBatchSizes.erase scope }
  match q.retryAfter.lookup scope with
  | some deadline =>
    if deadline > now then q
    else { q with
      retryAfter := q.retryAfter.erase scope
      retryCounts := q.retryCounts.erase scope }
  | none => { q with retryCounts := q.retryCounts.erase scope }

/-- Exponential backoff with jitter, `nanos` being the sub-second part of the wall clock.
The source computes it in `f64`; the rounding is not modelled. -/
def retryDelay (attempt nanos : Nat) : Duration :=
  let baseSecs := BASE_RETRY_DELAY_SECS * 2 ^ min (attempt - 1) 6
  let cappedSecs := min baseSecs MAX_RETRY_DELAY_SECS
  let u32Max := 2 ^ 32 - 1
  Duration.fromSecs cappedSecs * (8 * u32Max + 4 * nanos) / (10 * u32Max)

def requeue (q : EventQueue) (orders : MapOrders) (batch : FlushBatch) (nanos : Nat)
    (now : Instant) : Option FlushBatch × EventQueue :=
  let scope := batch.scope
  let attempt := Dict.getD q.retryCounts scope 0 + 1
  let q := { q with retryCounts := q.retryCounts.insert scope attempt }
  if attempt > MAX_RETRIES then
    (some batch, { q with
      retryCounts := q.retryCounts.erase scope
      retryAfter := q.retryAfter.erase scope })
  else
    let delay := retryDelay attempt nanos
    let q := q.pushFront scope (batch.events.map batch.toQueued)
    let q := { q with retryAfter := q.retryAfter.insert scope (now + delay) }
    (none, q.enforceChannelCap orders batch.channelId)

def restoreCancelled (q : EventQueue) (batch : FlushBatch) : EventQueue :=
  let scope := batch.scope
  if batch.cancelledEvents.isEmpty then q
  else
    let existing := Dict.getD q.cancelledBatches scope []
    { q with
      cancelledBatches := q.cancelledBatches.insert scope (batch.cancelledEvents ++ existing)
      cancelReasons :=
        match batch.cancelReason, q.cancelReasons.lookup scope with
        | some reason, none => q.cancelReasons.insert scope reason
        | _, _ => q.cancelReasons }

def requeuePreserveTimestamps (q : EventQueue) (orders : MapOrders) (batch : FlushBatch) :
    EventQueue :=
  let q := q.restoreCancelled batch
  let q := q.pushFront batch.scope (batch.events.map batch.toQueued)
  q.enforceChannelCap orders batch.channelId

def requeueAsCancelled (q : EventQueue) (batch : FlushBatch) (reason : CancelReason) : EventQueue :=
  let scope := batch.scope
  let entry := Dict.getD q.cancelledBatches scope []
  { q with
    cancelledBatches :=
      q.cancelledBatches.insert scope (entry ++ batch.cancelledEvents ++ batch.events)
    cancelReasons := q.cancelReasons.insert scope reason }

def hasFlushableWork (q : EventQueue) (orders : MapOrders) (now : Instant) : Bool × EventQueue :=
  let q := q.expireInFlight orders now
  (q.queues.entries.any (q.flushable now) ||
    q.cancelledBatches.entries.any (fun e => !decide (e.1 ∈ q.inFlightScopes)), q)

def drainChannel (q : EventQueue) (orders : MapOrders) (channelId : Uuid) :
    List String × EventQueue :=
  let drained := (orders.queues.order q.queues.entries).filter
    fun (e : Σ _ : SessionScope, List QueuedEvent) => decide (e.1.channelId = channelId)
  (drained.flatMap fun e => e.2.map fun qe => qe.event.id.toHex,
    { q with
      queues := Dict.retain q.queues fun s _ => !decide (s.channelId = channelId)
      retryAfter := Dict.retain q.retryAfter fun s _ => !decide (s.channelId = channelId)
      retryCounts := Dict.retain q.retryCounts fun s _ => !decide (s.channelId = channelId)
      cancelledBatches := Dict.retain q.cancelledBatches fun s _ => !decide (s.channelId = channelId)
      cancelReasons := Dict.retain q.cancelReasons fun s _ => !decide (s.channelId = channelId)
      withheldNativeSteer :=
        Dict.retain q.withheldNativeSteer fun s _ => !decide (s.channelId = channelId) })

def markNativeSteerPending (q : EventQueue) (scope : SessionScope) (eventId : String) :
    Bool × EventQueue :=
  match q.queues.lookup scope with
  | none => (false, q)
  | some queue =>
    match queue.find? fun qe => decide (qe.event.id.toHex = eventId) with
    | none => (false, q)
    | some qe =>
      let rest := queue.eraseP fun qe => decide (qe.event.id.toHex = eventId)
      let entries := Dict.getD q.withheldNativeSteer scope []
      (true, { q with
        queues := Dict.putBack q.queues scope rest
        withheldNativeSteer := q.withheldNativeSteer.insert scope (entries ++ [qe]) })

def releaseNativeSteer (q : EventQueue) (orders : MapOrders) (scope : SessionScope)
    (eventId : String) : EventQueue :=
  match q.withheldNativeSteer.lookup scope with
  | none => q
  | some entries =>
    match entries.find? fun qe => decide (qe.event.id.toHex = eventId) with
    | none => q
    | some qe =>
      let rest := entries.eraseP fun qe => decide (qe.event.id.toHex = eventId)
      let q := { q with withheldNativeSteer := Dict.putBack q.withheldNativeSteer scope rest }
      (q.pushFront scope [qe]).enforceChannelCap orders scope.channelId

def dropEvent (m : Dict SessionScope (List QueuedEvent)) (scope : SessionScope)
    (eventId : String) : Dict SessionScope (List QueuedEvent) :=
  match m.lookup scope with
  | none => m
  | some entries =>
    Dict.putBack m scope (entries.filter fun qe => !decide (qe.event.id.toHex = eventId))

def removeEvent (q : EventQueue) (scope : SessionScope) (eventId : String) : EventQueue :=
  { q with
    withheldNativeSteer := dropEvent q.withheldNativeSteer scope eventId
    queues := dropEvent q.queues scope eventId }

def compactExpiredState (q : EventQueue) (now : Instant) : EventQueue :=
  let q := { q with retryAfter := Dict.retain q.retryAfter fun _ deadline => decide (deadline > now) }
  { q with
    retryCounts := Dict.retain q.retryCounts fun scope _ =>
      (q.retryAfter.lookup scope).isSome ||
        (match q.queues.lookup scope with
          | some queue => !queue.isEmpty
          | none => false) ||
        decide (scope ∈ q.inFlightScopes) }

end EventQueue

end Colony.Acp
