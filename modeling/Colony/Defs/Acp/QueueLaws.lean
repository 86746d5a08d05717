import Colony.Defs.Acp.Queue
import Mathlib.Algebra.BigOperators.Group.List.Basic

namespace Colony.Acp

open Colony.Data Colony.Core

def QueuedEvent.count (id : EventId) (l : List QueuedEvent) : Nat := (l.map (·.event.id)).count id
def BatchEvent.count (id : EventId) (l : List BatchEvent) : Nat := (l.map (·.event.id)).count id

def FlushBatch.count (id : EventId) (b : FlushBatch) : Nat :=
  BatchEvent.count id b.events + BatchEvent.count id b.cancelledEvents

section Counts

variable (id : EventId)

@[simp] theorem QueuedEvent.count_nil : QueuedEvent.count id [] = 0 := rfl
@[simp] theorem BatchEvent.count_nil : BatchEvent.count id [] = 0 := rfl

@[simp] theorem QueuedEvent.count_append (l l' : List QueuedEvent) :
    QueuedEvent.count id (l ++ l') = QueuedEvent.count id l + QueuedEvent.count id l' := by
  simp [QueuedEvent.count]

@[simp] theorem BatchEvent.count_append (l l' : List BatchEvent) :
    BatchEvent.count id (l ++ l') = BatchEvent.count id l + BatchEvent.count id l' := by
  simp [BatchEvent.count]

theorem QueuedEvent.count_take_drop (n : Nat) (l : List QueuedEvent) :
    QueuedEvent.count id (l.take n) + QueuedEvent.count id (l.drop n) = QueuedEvent.count id l := by
  rw [← QueuedEvent.count_append, List.take_append_drop]

theorem QueuedEvent.count_filter (p : QueuedEvent → Bool) (l : List QueuedEvent) :
    QueuedEvent.count id (l.filter p) + QueuedEvent.count id (l.filter fun qe => !p qe) =
      QueuedEvent.count id l := by
  rw [← QueuedEvent.count_append, QueuedEvent.count, QueuedEvent.count]
  exact ((List.filter_append_perm p l).map _).count_eq id

theorem QueuedEvent.count_eraseP {p : QueuedEvent → Bool} {l : List QueuedEvent} {qe : QueuedEvent}
    (h : l.find? p = some qe) :
    QueuedEvent.count id (l.eraseP p) + QueuedEvent.count id [qe] = QueuedEvent.count id l := by
  obtain ⟨hp, as, bs, rfl, has⟩ := List.find?_eq_some_iff_append.1 h
  have hne : ∀ a ∈ as, ¬p a = true := fun a ha hpa => by simpa [hpa] using has a ha
  rw [List.eraseP_append_right _ hne, List.eraseP_cons_of_pos hp]
  simp only [QueuedEvent.count_append, ← List.singleton_append (l := bs)]
  omega

@[simp] theorem BatchEvent.count_toBatch (l : List QueuedEvent) :
    BatchEvent.count id (l.map QueuedEvent.toBatch) = QueuedEvent.count id l := by
  simp [BatchEvent.count, QueuedEvent.count, QueuedEvent.toBatch, Function.comp_def]

@[simp] theorem QueuedEvent.count_toQueued (b : FlushBatch) (l : List BatchEvent) :
    QueuedEvent.count id (l.map b.toQueued) = BatchEvent.count id l := by
  simp [BatchEvent.count, QueuedEvent.count, FlushBatch.toQueued, Function.comp_def]

@[simp] theorem BatchEvent.count_insertionSort (r : BatchEvent → BatchEvent → Prop)
    [DecidableRel r] (l : List BatchEvent) :
    BatchEvent.count id (l.insertionSort r) = BatchEvent.count id l :=
  ((l.perm_insertionSort r).map _).count_eq id

end Counts

namespace EventQueue

section ChannelCap

variable (q : EventQueue) (orders : MapOrders) (channelId : Uuid)

theorem channelEventTotal_eq :
    q.channelEventTotal channelId =
      Dict.total (fun s l => if s.channelId = channelId then l.length else 0) q.queues := by
  unfold channelEventTotal Dict.total
  induction q.queues.entries with
  | nil => rfl
  | cons e es ih => by_cases he : e.1.channelId = channelId <;> simp [he, ih]

theorem lookup_of_capVictim {scope : SessionScope} (h : q.capVictim orders channelId = some scope) :
    scope.channelId = channelId ∧ ∃ qe queue, q.queues.lookup scope = some (qe :: queue) := by
  obtain ⟨⟨_, queue⟩, hmin, rfl⟩ := Option.map_eq_some_iff.1 h
  have hmem := List.mem_filter.1 (List.argmin_mem hmin)
  simp only [IterOrder.mem_order, Bool.and_eq_true, decide_eq_true_eq] at hmem
  obtain ⟨hin, hchannel, hne⟩ := hmem
  cases queue with
  | nil => cases hne
  | cons qe queue => exact ⟨hchannel, qe, queue, (Dict.mem_lookup_entries _ _ _).2 hin⟩

theorem channelEventTotal_of_no_capVictim (h : q.capVictim orders channelId = none) :
    q.channelEventTotal channelId = 0 := by
  have hnil := List.argmin_eq_none.1 (Option.map_eq_none_iff.1 h)
  rw [List.filter_eq_nil_iff] at hnil
  refine List.sum_eq_zero fun n hn => ?_
  obtain ⟨e, he, rfl⟩ := List.mem_map.1 hn
  obtain ⟨hin, hchannel⟩ := List.mem_filter.1 he
  have hempty := hnil e ((IterOrder.mem_order _ _ _).2 hin)
  simpa [hchannel] using hempty

theorem channelEventTotal_evictFront {scope : SessionScope}
    (h : q.capVictim orders channelId = some scope) :
    (q.evictFront scope).channelEventTotal channelId + 1 = q.channelEventTotal channelId := by
  obtain ⟨hchannel, qe, queue, hlookup⟩ := lookup_of_capVictim q orders channelId h
  have hput := Dict.total_putBack
    (f := fun s (l : List QueuedEvent) => if s.channelId = channelId then l.length else 0)
    (fun _ => by simp) q.queues scope queue
  rw [Dict.getD_of_lookup hlookup] at hput
  simp only [hchannel, if_true, List.length_cons] at hput
  rw [channelEventTotal_eq, channelEventTotal_eq]
  simp only [evictFront, hlookup, List.drop_succ_cons, List.drop_zero]
  omega

theorem channelEventTotal_enforceChannelCap :
    (q.enforceChannelCap orders channelId).channelEventTotal channelId ≤ MAX_PENDING_PER_CHANNEL := by
  have hloop : ∀ fuel q, q.channelEventTotal channelId ≤ MAX_PENDING_PER_CHANNEL + fuel →
      (enforceLoop orders channelId fuel q).channelEventTotal channelId ≤
        MAX_PENDING_PER_CHANNEL := by
    intro fuel
    induction fuel with
    | zero => exact fun q h => h
    | succ fuel ih =>
      intro q h
      unfold enforceLoop
      split
      · next hover =>
        cases hvictim : q.capVictim orders channelId with
        | none =>
          have hzero := channelEventTotal_of_no_capVictim q orders channelId hvictim
          omega
        | some scope =>
          have hevict := channelEventTotal_evictFront q orders channelId hvictim
          exact ih _ (by omega)
      · next hunder => exact Nat.le_of_not_lt hunder
  exact hloop _ q (Nat.le_add_left _ _)

theorem enforceChannelCap_of_le (h : q.channelEventTotal channelId ≤ MAX_PENDING_PER_CHANNEL) :
    q.enforceChannelCap orders channelId = q := by
  unfold enforceChannelCap
  cases q.channelEventTotal channelId with
  | zero => rfl
  | succ fuel =>
    rw [enforceLoop, if_neg (Nat.not_lt.2 h)]

end ChannelCap

/-- How often an id occurs in the queues, the withheld table, the cancelled carry-over and
among what the caps dropped. -/
def tally (q : EventQueue) (id : EventId) : Nat :=
  Dict.total (fun _ => QueuedEvent.count id) q.queues +
    Dict.total (fun _ => QueuedEvent.count id) q.withheldNativeSteer +
    Dict.total (fun _ => BatchEvent.count id) q.cancelledBatches +
    QueuedEvent.count id q.evicted

section Tally

variable (q : EventQueue) (orders : MapOrders) (id : EventId)

theorem total_queues_insert (m : Dict SessionScope (List QueuedEvent)) (scope : SessionScope)
    (l : List QueuedEvent) :
    Dict.total (fun _ => QueuedEvent.count id) (m.insert scope l) +
        QueuedEvent.count id (Dict.getD m scope []) =
      Dict.total (fun _ => QueuedEvent.count id) m + QueuedEvent.count id l :=
  Dict.total_insert (f := fun _ => QueuedEvent.count id) (fun _ => rfl) m scope l

theorem tally_evictFront (scope : SessionScope) : (q.evictFront scope).tally id = q.tally id := by
  unfold evictFront
  cases h : q.queues.lookup scope with
  | none => rfl
  | some queue =>
    have hput := Dict.total_putBack (f := fun _ => QueuedEvent.count id) (fun _ => rfl) q.queues
      scope (queue.drop 1)
    have hsplit := QueuedEvent.count_take_drop id 1 queue
    rw [Dict.getD_of_lookup h] at hput
    simp only [tally, QueuedEvent.count_append]
    omega

theorem tally_enforceLoop (channelId : Uuid) (fuel : Nat) :
    (enforceLoop orders channelId fuel q).tally id = q.tally id := by
  induction fuel generalizing q with
  | zero => rfl
  | succ fuel ih =>
    unfold enforceLoop
    split
    · split
      · rfl
      · rw [ih, tally_evictFront]
    · rfl

@[simp] theorem tally_enforceChannelCap (channelId : Uuid) :
    (q.enforceChannelCap orders channelId).tally id = q.tally id :=
  tally_enforceLoop q orders id channelId _

@[simp] theorem tally_pushFront (scope : SessionScope) (events : List QueuedEvent) :
    (q.pushFront scope events).tally id = q.tally id + QueuedEvent.count id events := by
  have hput := total_queues_insert id q.queues scope
    ((events ++ Dict.getD q.queues scope []).take MAX_PENDING_PER_SCOPE)
  have hsplit := QueuedEvent.count_take_drop id MAX_PENDING_PER_SCOPE
    (events ++ Dict.getD q.queues scope [])
  simp only [QueuedEvent.count_append] at hsplit
  simp only [pushFront, tally, QueuedEvent.count_append]
  omega

theorem tally_push (event : QueuedEvent) :
    (q.push orders event).2.tally id =
      q.tally id + if (q.push orders event).1 then QueuedEvent.count id [event] else 0 := by
  unfold push
  split
  · simp
  · simp only [tally_enforceChannelCap, if_true]
    generalize hq : Dict.getD q.queues event.scope [] = queue
    have hsplit := QueuedEvent.count_take_drop id 1 queue
    by_cases hover : queue.length ≥ MAX_PENDING_PER_SCOPE
    · have hput := total_queues_insert id q.queues event.scope (queue.drop 1 ++ [event])
      rw [hq, QueuedEvent.count_append] at hput
      simp only [tally, hover, decide_true, if_true, QueuedEvent.count_append]
      omega
    · have hput := total_queues_insert id q.queues event.scope (queue ++ [event])
      rw [hq, QueuedEvent.count_append] at hput
      simp only [tally, hover, decide_false, Bool.false_eq_true, if_false, List.append_nil]
      omega

@[simp] theorem tally_recoverWithheldForExpiredScope (scope : SessionScope) :
    (q.recoverWithheldForExpiredScope orders scope).tally id = q.tally id := by
  unfold recoverWithheldForExpiredScope
  cases h : q.withheldNativeSteer.lookup scope with
  | none => rfl
  | some entries =>
    have herase := Dict.total_erase (f := fun _ => QueuedEvent.count id) (fun _ => rfl)
      q.withheldNativeSteer scope
    rw [Dict.getD_of_lookup h] at herase
    simp only [tally_enforceChannelCap, tally_pushFront]
    simp only [tally]
    omega

theorem tally_expireScope (scope : SessionScope) :
    (expireScope orders q scope).tally id = q.tally id := by
  simp only [expireScope, tally_recoverWithheldForExpiredScope]
  rfl

@[simp] theorem tally_expireInFlight (now : Instant) :
    (q.expireInFlight orders now).tally id = q.tally id := by
  unfold expireInFlight
  generalize List.map _ _ = expired
  induction expired generalizing q with
  | nil => rfl
  | cons scope expired ih =>
    rw [List.foldl_cons]
    exact (ih _).trans (tally_expireScope q orders id scope)

theorem tally_flushQueued (scope : SessionScope) (now : Instant) :
    (q.flushQueued scope now).2.tally id + (q.flushQueued scope now).1.count id = q.tally id := by
  simp only [flushQueued, startFlight, tally, FlushBatch.count, BatchEvent.count_insertionSort,
    BatchEvent.count_toBatch]
  generalize hq : Dict.getD q.queues scope [] = queue
  have hput := Dict.total_putBack (f := fun _ => QueuedEvent.count id) (fun _ => rfl) q.queues
    scope (queue.drop (min MAX_BATCH_EVENTS queue.length))
  have hsplit := QueuedEvent.count_take_drop id (min MAX_BATCH_EVENTS queue.length) queue
  have herase := Dict.total_erase (f := fun _ => BatchEvent.count id) (fun _ => rfl)
    q.cancelledBatches scope
  rw [hq] at hput
  omega

theorem tally_flushCancelled (scope : SessionScope) (now : Instant) :
    (q.flushCancelled scope now).2.tally id + (q.flushCancelled scope now).1.count id =
      q.tally id := by
  have herase := Dict.total_erase (f := fun _ => BatchEvent.count id) (fun _ => rfl)
    q.cancelledBatches scope
  simp only [flushCancelled, startFlight, tally, FlushBatch.count, BatchEvent.count_nil]
  omega

theorem tally_flushNext (now : Instant) :
    (q.flushNext orders now).2.tally id + ((q.flushNext orders now).1.elim 0 fun b => b.count id) =
      q.tally id := by
  have hexp := tally_expireInFlight q orders id now
  unfold flushNext
  dsimp only
  cases (q.expireInFlight orders now).nextScope orders now with
  | some scope => exact (tally_flushQueued _ id scope now).trans hexp
  | none =>
    dsimp only
    cases (q.expireInFlight orders now).nextCancelledScope orders with
    | some scope => exact (tally_flushCancelled _ id scope now).trans hexp
    | none => exact hexp

theorem tally_extendInFlightDeadline (scope : SessionScope) (maxTurnSecs : Nat) (now : Instant) :
    (q.extendInFlightDeadline scope maxTurnSecs now).tally id = q.tally id := by
  unfold extendInFlightDeadline
  split
  · rfl
  · dsimp only
    split <;> rfl

@[simp] theorem tally_markComplete (scope : SessionScope) (now : Instant) :
    (q.markComplete scope now).tally id = q.tally id := by
  unfold markComplete
  dsimp only
  split
  · split <;> rfl
  · rfl

theorem tally_requeue (batch : FlushBatch) (nanos : Nat) (now : Instant) :
    (q.requeue orders batch nanos now).2.tally id =
      q.tally id + if (q.requeue orders batch nanos now).1.isSome then 0
        else BatchEvent.count id batch.events := by
  unfold requeue
  dsimp only
  split
  · rfl
  · have hfront := tally_pushFront { q with
      retryCounts := q.retryCounts.insert batch.scope (Dict.getD q.retryCounts batch.scope 0 + 1) }
      id batch.scope (batch.events.map batch.toQueued)
    rw [QueuedEvent.count_toQueued] at hfront
    simp only [tally_enforceChannelCap, Option.isSome_none, Bool.false_eq_true, if_false]
    exact hfront

@[simp] theorem tally_restoreCancelled (batch : FlushBatch) :
    (q.restoreCancelled batch).tally id =
      q.tally id + BatchEvent.count id batch.cancelledEvents := by
  unfold restoreCancelled
  dsimp only
  split
  · next h => simp [List.isEmpty_iff.1 h]
  · have hput := Dict.total_insert (f := fun _ => BatchEvent.count id) (fun _ => rfl)
      q.cancelledBatches batch.scope
      (batch.cancelledEvents ++ Dict.getD q.cancelledBatches batch.scope [])
    rw [BatchEvent.count_append] at hput
    simp only [tally]
    omega

theorem tally_requeuePreserveTimestamps (batch : FlushBatch) :
    (q.requeuePreserveTimestamps orders batch).tally id = q.tally id + batch.count id := by
  simp only [requeuePreserveTimestamps, tally_enforceChannelCap, tally_pushFront,
    tally_restoreCancelled, QueuedEvent.count_toQueued, FlushBatch.count]
  omega

theorem tally_requeueAsCancelled (batch : FlushBatch) (reason : CancelReason) :
    (q.requeueAsCancelled batch reason).tally id = q.tally id + batch.count id := by
  have hput := Dict.total_insert (f := fun _ => BatchEvent.count id) (fun _ => rfl)
    q.cancelledBatches batch.scope
    (Dict.getD q.cancelledBatches batch.scope [] ++ batch.cancelledEvents ++ batch.events)
  simp only [BatchEvent.count_append] at hput
  simp only [requeueAsCancelled, tally, FlushBatch.count]
  omega

theorem tally_hasFlushableWork (now : Instant) :
    (q.hasFlushableWork orders now).2.tally id = q.tally id :=
  tally_expireInFlight q orders id now

theorem tally_compactExpiredState (now : Instant) :
    (q.compactExpiredState now).tally id = q.tally id := rfl

theorem tally_markNativeSteerPending (scope : SessionScope) (eventId : String) :
    (q.markNativeSteerPending scope eventId).2.tally id = q.tally id := by
  unfold markNativeSteerPending
  cases h : q.queues.lookup scope with
  | none => rfl
  | some queue =>
    dsimp only
    cases hfind : queue.find? fun qe => decide (qe.event.id.toHex = eventId) with
    | none => rfl
    | some qe =>
      have hput := Dict.total_putBack (f := fun _ => QueuedEvent.count id) (fun _ => rfl) q.queues
        scope (queue.eraseP fun qe => decide (qe.event.id.toHex = eventId))
      have hins := total_queues_insert id q.withheldNativeSteer scope
        (Dict.getD q.withheldNativeSteer scope [] ++ [qe])
      have herase := QueuedEvent.count_eraseP id hfind
      rw [Dict.getD_of_lookup h] at hput
      rw [QueuedEvent.count_append] at hins
      simp only [tally]
      omega

theorem tally_releaseNativeSteer (scope : SessionScope) (eventId : String) :
    (q.releaseNativeSteer orders scope eventId).tally id = q.tally id := by
  unfold releaseNativeSteer
  cases h : q.withheldNativeSteer.lookup scope with
  | none => rfl
  | some entries =>
    dsimp only
    cases hfind : entries.find? fun qe => decide (qe.event.id.toHex = eventId) with
    | none => rfl
    | some qe =>
      have hput := Dict.total_putBack (f := fun _ => QueuedEvent.count id) (fun _ => rfl)
        q.withheldNativeSteer scope (entries.eraseP fun qe => decide (qe.event.id.toHex = eventId))
      have herase := QueuedEvent.count_eraseP id hfind
      rw [Dict.getD_of_lookup h] at hput
      simp only [tally_enforceChannelCap, tally_pushFront]
      simp only [tally]
      omega

def removedBy (scope : SessionScope) (eventId : String) : List QueuedEvent :=
  (Dict.getD q.withheldNativeSteer scope [] ++ Dict.getD q.queues scope []).filter
    fun qe => decide (qe.event.id.toHex = eventId)

theorem total_dropEvent (m : Dict SessionScope (List QueuedEvent)) (scope : SessionScope)
    (eventId : String) :
    Dict.total (fun _ => QueuedEvent.count id) (dropEvent m scope eventId) +
      QueuedEvent.count id
        ((Dict.getD m scope []).filter fun qe => decide (qe.event.id.toHex = eventId)) =
    Dict.total (fun _ => QueuedEvent.count id) m := by
  unfold dropEvent
  cases h : m.lookup scope with
  | none => simp [Dict.getD, h]
  | some entries =>
    have hput := Dict.total_putBack (f := fun _ => QueuedEvent.count id) (fun _ => rfl) m scope
      (entries.filter fun qe => !decide (qe.event.id.toHex = eventId))
    have hsplit := QueuedEvent.count_filter id (fun qe => decide (qe.event.id.toHex = eventId)) entries
    rw [Dict.getD_of_lookup h] at hput ⊢
    dsimp only
    omega

theorem tally_removeEvent (scope : SessionScope) (eventId : String) :
    (q.removeEvent scope eventId).tally id + QueuedEvent.count id (q.removedBy scope eventId) =
      q.tally id := by
  have hw := total_dropEvent id q.withheldNativeSteer scope eventId
  have hq := total_dropEvent id q.queues scope eventId
  simp only [removeEvent, removedBy, tally, List.filter_append, QueuedEvent.count_append]
  omega

def drainedBy (channelId : Uuid) : List EventId :=
  ((Dict.retain q.queues fun s _ => decide (s.channelId = channelId)).entries.flatMap fun e =>
      e.2.map (·.event.id)) ++
    ((Dict.retain q.withheldNativeSteer fun s _ => decide (s.channelId = channelId)).entries.flatMap
      fun e => e.2.map (·.event.id)) ++
    (Dict.retain q.cancelledBatches fun s _ => decide (s.channelId = channelId)).entries.flatMap
      fun e => e.2.map (·.event.id)

theorem tally_drainChannel (channelId : Uuid) :
    (q.drainChannel orders channelId).2.tally id + (q.drainedBy channelId).count id =
      q.tally id := by
  have hq := Dict.total_retain (fun _ => QueuedEvent.count id) q.queues
    fun s _ => decide (s.channelId = channelId)
  have hw := Dict.total_retain (fun _ => QueuedEvent.count id) q.withheldNativeSteer
    fun s _ => decide (s.channelId = channelId)
  have hc := Dict.total_retain (fun _ => BatchEvent.count id) q.cancelledBatches
    fun s _ => decide (s.channelId = channelId)
  simp only [drainChannel, drainedBy, tally, List.count_append, List.count_flatMap]
  simp only [Dict.total, QueuedEvent.count, BatchEvent.count] at hq hw hc ⊢
  simp only [Function.comp_def]
  omega

end Tally

end EventQueue

end Colony.Acp
