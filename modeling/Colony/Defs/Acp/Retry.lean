import Colony.Defs.Acp.QueueLaws
import Colony.Defs.Data.Run

namespace Colony.Acp

open Colony.Data Colony.Core

inductive Phase
  | idle
  | running (batch : FlushBatch)
  | failed
  | held

structure Turns where
  queue : EventQueue
  phase : Phase
  clock : Instant
  -- Failed attempts since the start or the last dead letter.
  attempts : Nat

inductive TurnStep (scope : SessionScope)
  | push (orders : MapOrders) (event : QueuedEvent) (hscope : event.scope = scope)
  | flush (orders : MapOrders)
  | fail (orders : MapOrders) (nanos : Nat)
  | hold (orders : MapOrders)
  | complete
  | compact
  | wait (elapsed : Duration)

namespace Turns

variable {scope : SessionScope}

def start (dedupMode : DedupMode) (inFlightDeadline : Duration) : Turns :=
  ⟨{ EventQueue.new dedupMode with inFlightDeadline := inFlightDeadline }, .idle, 0, 0⟩

def step (s : Turns) : TurnStep scope → Turns
  | .push orders event _ => { s with queue := (s.queue.push orders event).2 }
  | .flush orders =>
    match s.phase with
    | .idle =>
      let out := s.queue.flushNext orders s.clock
      { s with queue := out.2, phase := out.1.elim .idle .running }
    | _ => s
  | .fail orders nanos =>
    match s.phase with
    | .running batch =>
      let out := s.queue.requeue orders batch nanos s.clock
      { s with
        queue := out.2
        phase := .failed
        attempts := if out.1.isSome then 0 else s.attempts + 1 }
    | _ => s
  | .hold orders =>
    match s.phase with
    | .running batch =>
      { s with queue := s.queue.requeuePreserveTimestamps orders batch, phase := .held }
    | _ => s
  | .complete =>
    match s.phase with
    | .failed | .held => { s with queue := s.queue.markComplete scope s.clock, phase := .idle }
    | _ => s
  | .compact => { s with queue := s.queue.compactExpiredState s.clock }
  | .wait elapsed => { s with clock := s.clock + elapsed }

/-- A failed attempt is completed while its backoff runs, and only a batch with no failure on
record is held. -/
def Undisturbed (s : Turns) : TurnStep scope → Prop
  | .hold _ => s.attempts = 0
  | .complete =>
    match s.phase with
    | .failed => s.attempts = 0 ∨ ∃ t ∈ s.queue.retryAfter.lookup scope, s.clock < t
    | _ => True
  | _ => True

instance (s : Turns) : (t : TurnStep scope) → Decidable (Undisturbed s t)
  | .hold _ => inferInstanceAs (Decidable (s.attempts = 0))
  | .complete =>
    match h : s.phase with
    | .failed =>
      match hl : s.queue.retryAfter.lookup scope with
      | some t => decidable_of_iff (s.attempts = 0 ∨ s.clock < t) (by simp [Undisturbed, h, hl])
      | none => decidable_of_iff (s.attempts = 0) (by simp [Undisturbed, h, hl])
    | .idle | .running _ | .held => .isTrue (by simp [Undisturbed, h])
  | .push .. | .flush _ | .fail .. | .compact | .wait _ => .isTrue trivial

end Turns

namespace EventQueue

/-- The queue holds events of one scope only, within its cap, and both side tables are empty. -/
structure Lone (q : EventQueue) (scope : SessionScope) : Prop where
  only : ∀ k queue, q.queues.lookup k = some queue → k = scope
  depth : (Dict.getD q.queues scope []).length ≤ MAX_PENDING_PER_SCOPE
  cancelled : q.cancelledBatches = ∅
  withheld : q.withheldNativeSteer = ∅

namespace Lone

variable {q : EventQueue} {scope : SessionScope}

theorem total_eq (h : q.Lone scope) {f : SessionScope → List QueuedEvent → Nat}
    (hf : ∀ k, f k [] = 0) : Dict.total f q.queues = f scope (Dict.getD q.queues scope []) := by
  have herase := Dict.total_erase hf q.queues scope
  have hnil : (q.queues.erase scope).entries = [] := by
    refine List.eq_nil_iff_forall_not_mem.2 fun e he => ?_
    have hlookup := (Dict.mem_lookup_entries _ _ _).2 he
    rw [Dict.lookup_erase_if] at hlookup
    split at hlookup
    · cases hlookup
    · next hne => exact hne (h.only _ _ hlookup)
  have hzero : Dict.total f (q.queues.erase scope) = 0 := by simp [Dict.total, hnil]
  omega

theorem enforceChannelCap (h : q.Lone scope) (orders : MapOrders) (channelId : Uuid) :
    q.enforceChannelCap orders channelId = q := by
  apply enforceChannelCap_of_le
  rw [channelEventTotal_eq, h.total_eq (by simp)]
  split
  · exact h.depth
  · exact Nat.zero_le _

theorem replace (h : q.Lone scope) {q' : EventQueue} {l : Option (List QueuedEvent)}
    (hqueues : ∀ k, q'.queues.lookup k = if k = scope then l else q.queues.lookup k)
    (hl : (l.getD []).length ≤ MAX_PENDING_PER_SCOPE)
    (hc : q'.cancelledBatches = q.cancelledBatches)
    (hw : q'.withheldNativeSteer = q.withheldNativeSteer) : q'.Lone scope where
  only k queue hk := by
    rw [hqueues] at hk
    split at hk
    · assumption
    · exact h.only k queue hk
  depth := by rwa [Dict.getD, hqueues, if_pos rfl]
  cancelled := hc.trans h.cancelled
  withheld := hw.trans h.withheld

theorem congr (h : q.Lone scope) {q' : EventQueue} (hq : q'.queues = q.queues)
    (hc : q'.cancelledBatches = q.cancelledBatches)
    (hw : q'.withheldNativeSteer = q.withheldNativeSteer) : q'.Lone scope :=
  ⟨hq ▸ h.only, hq ▸ h.depth, hc.trans h.cancelled, hw.trans h.withheld⟩

theorem pushFront (h : q.Lone scope) (events : List QueuedEvent) :
    (q.pushFront scope events).Lone scope :=
  h.replace (Dict.lookup_insert_if q.queues scope · _) (List.length_take_le _ _) rfl rfl

theorem push (h : q.Lone scope) (orders : MapOrders) {event : QueuedEvent}
    (hscope : event.scope = scope) :
    (q.push orders event).2.Lone scope ∧
      (q.push orders event).2.retryCounts = q.retryCounts ∧
      (q.push orders event).2.retryAfter = q.retryAfter ∧
      (q.push orders event).2.inFlightScopes = q.inFlightScopes ∧
      (Dict.getD q.queues scope [] ≠ [] → Dict.getD (q.push orders event).2.queues scope [] ≠ []) := by
  subst hscope
  unfold EventQueue.push
  split
  · exact ⟨h, rfl, rfl, rfl, fun hne => hne⟩
  · dsimp only
    generalize hq : Dict.getD q.queues event.scope [] = queue
    have hdepth : queue.length ≤ MAX_PENDING_PER_SCOPE := hq ▸ h.depth
    generalize hkept : (if decide (queue.length ≥ MAX_PENDING_PER_SCOPE) then queue.drop 1
      else queue) = kept
    have hlen : (kept ++ [event]).length ≤ MAX_PENDING_PER_SCOPE := by
      rw [← hkept, List.length_append, List.length_singleton]
      split
      · simp only [List.length_drop, MAX_PENDING_PER_SCOPE] at *
        omega
      · next hover =>
        simp only [decide_eq_true_eq, ge_iff_le, not_le] at hover
        omega
    generalize (if decide (queue.length ≥ MAX_PENDING_PER_SCOPE) then queue.take 1 else []) = lost
    have hlone : Lone { q with
        queues := q.queues.insert event.scope (kept ++ [event])
        evicted := q.evicted ++ lost } event.scope :=
      h.replace (Dict.lookup_insert_if q.queues event.scope · _) hlen rfl rfl
    rw [hlone.enforceChannelCap]
    refine ⟨hlone, rfl, rfl, rfl, fun _ => ?_⟩
    rw [Dict.getD_of_lookup (AList.lookup_insert _)]
    simp

end Lone

theorem expireInFlight_stores {q : EventQueue} (h : q.withheldNativeSteer = ∅) (orders : MapOrders)
    (now : Instant) :
    (q.expireInFlight orders now).queues = q.queues ∧
      (q.expireInFlight orders now).cancelledBatches = q.cancelledBatches ∧
      (q.expireInFlight orders now).withheldNativeSteer = q.withheldNativeSteer ∧
      (q.expireInFlight orders now).retryCounts = q.retryCounts := by
  unfold expireInFlight
  generalize List.map _ _ = expired
  induction expired generalizing q with
  | nil => exact ⟨rfl, rfl, rfl, rfl⟩
  | cons scope expired ih =>
    rw [List.foldl_cons]
    have hexpire : expireScope orders q scope = { q with
        inFlightBatchSizes := q.inFlightBatchSizes.erase scope
        inFlightScopes := q.inFlightScopes.erase scope
        inFlightDeadlines := q.inFlightDeadlines.erase scope } := by
      simp [expireScope, recoverWithheldForExpiredScope, h]
    rw [hexpire]
    exact ih h

theorem Lone.nextScope {q : EventQueue} {scope : SessionScope} (h : q.Lone scope)
    {orders : MapOrders} {now : Instant} {next : SessionScope}
    (hnext : q.nextScope orders now = some next) :
    next = scope ∧ Dict.getD q.queues scope [] ≠ [] := by
  obtain ⟨⟨_, queue⟩, hmin, rfl⟩ := Option.map_eq_some_iff.1 hnext
  have hmem := List.mem_filter.1 (List.argmin_mem hmin)
  simp only [IterOrder.mem_order, flushable, Bool.and_eq_true, Bool.not_eq_true'] at hmem
  obtain ⟨hin, ⟨hne, _⟩, _⟩ := hmem
  have hlookup := (Dict.mem_lookup_entries _ _ _).2 hin
  obtain rfl := h.only _ _ hlookup
  refine ⟨rfl, ?_⟩
  rw [Dict.getD_of_lookup hlookup]
  rintro rfl
  cases hne

theorem Lone.flushQueued {q : EventQueue} {scope : SessionScope} (h : q.Lone scope)
    (hne : Dict.getD q.queues scope [] ≠ []) (now : Instant) :
    (q.flushQueued scope now).2.Lone scope ∧
      (q.flushQueued scope now).2.retryCounts = q.retryCounts ∧
      scope ∈ (q.flushQueued scope now).2.inFlightScopes ∧
      (q.flushQueued scope now).1.scope = scope ∧ (q.flushQueued scope now).1.events ≠ [] ∧
      (q.flushQueued scope now).1.cancelledEvents = [] := by
  refine ⟨?_, rfl, Finset.mem_insert_self _ _, rfl, ?_,
    by simp only [EventQueue.flushQueued, startFlight, h.cancelled]; rfl⟩
  · unfold EventQueue.flushQueued
    dsimp only
    generalize hq : Dict.getD q.queues scope [] = queue
    generalize min MAX_BATCH_EVENTS queue.length = n
    have hlen : (queue.drop n).length ≤ MAX_PENDING_PER_SCOPE := by
      have hdepth := h.depth
      rw [hq] at hdepth
      rw [List.length_drop]
      omega
    refine h.replace (l := if (queue.drop n).isEmpty then none else some (queue.drop n))
      (fun k => ?_) ?_ (by simp only [startFlight, h.cancelled]; rfl) rfl
    · simp only [startFlight, Dict.putBack]
      split
      · exact Dict.lookup_erase_if ..
      · exact Dict.lookup_insert_if ..
    · split
      · exact Nat.zero_le _
      · exact hlen
  · have hpos : 0 < (Dict.getD q.queues scope []).length := List.length_pos_of_ne_nil hne
    apply List.ne_nil_of_length_pos
    simp only [EventQueue.flushQueued, List.length_insertionSort, List.length_map,
      List.length_take, MAX_BATCH_EVENTS]
    omega

theorem Lone.flushNext {q : EventQueue} {scope : SessionScope} (h : q.Lone scope)
    (orders : MapOrders) (now : Instant) :
    (q.flushNext orders now).2.Lone scope ∧
      (q.flushNext orders now).2.retryCounts = q.retryCounts ∧
      match (q.flushNext orders now).1 with
      | none => (q.flushNext orders now).2.queues = q.queues
      | some batch => scope ∈ (q.flushNext orders now).2.inFlightScopes ∧
          batch.scope = scope ∧ batch.events ≠ [] ∧ batch.cancelledEvents = [] := by
  obtain ⟨hqueues, hcancelled, hwithheld, hcounts⟩ := expireInFlight_stores h.withheld orders now
  have hlone := h.congr hqueues hcancelled hwithheld
  unfold EventQueue.flushNext
  dsimp only
  generalize q.expireInFlight orders now = q' at *
  cases hnext : q'.nextScope orders now with
  | some next =>
    obtain ⟨rfl, hne⟩ := hlone.nextScope hnext
    obtain ⟨hlone', hcounts', hbatch⟩ := hlone.flushQueued hne now
    exact ⟨hlone', hcounts'.trans hcounts, hbatch⟩
  | none =>
    have hnone : q'.nextCancelledScope orders = none := by
      have hnil : orders.cancelled.order q'.cancelledBatches.entries = [] := by
        rw [hlone.cancelled]
        exact (orders.cancelled.perm []).eq_nil
      simp [nextCancelledScope, hnil]
    simp only [hnone]
    exact ⟨hlone, hcounts, hqueues⟩

theorem getD_pushFront_ne_nil (q : EventQueue) (scope : SessionScope) {events : List QueuedEvent}
    (h : events ≠ []) : Dict.getD (q.pushFront scope events).queues scope [] ≠ [] := by
  have hpos : 0 < events.length := List.length_pos_of_ne_nil h
  apply List.ne_nil_of_length_pos
  rw [pushFront, Dict.getD_of_lookup (AList.lookup_insert _)]
  simp only [List.length_take, List.length_append, MAX_PENDING_PER_SCOPE]
  omega

theorem Lone.requeue {q : EventQueue} {batch : FlushBatch} (h : q.Lone batch.scope)
    (orders : MapOrders) (nanos : Nat) (now : Instant) :
    let out := q.requeue orders batch nanos now
    out.2.Lone batch.scope ∧ out.2.inFlightScopes = q.inFlightScopes ∧
      if Dict.getD q.retryCounts batch.scope 0 + 1 > MAX_RETRIES then
        out.1 = some batch ∧ Dict.getD out.2.retryCounts batch.scope 0 = 0
      else
        out.1 = none ∧
          Dict.getD out.2.retryCounts batch.scope 0 = Dict.getD q.retryCounts batch.scope 0 + 1 ∧
          (batch.events ≠ [] → Dict.getD out.2.queues batch.scope [] ≠ []) := by
  unfold EventQueue.requeue
  dsimp only
  split
  · refine ⟨h.congr rfl rfl rfl, rfl, rfl, ?_⟩
    simp [Dict.getD]
  · have hcap : ∀ q' : EventQueue, q'.Lone batch.scope →
        q'.enforceChannelCap orders batch.channelId = q' := fun q' h' => h'.enforceChannelCap ..
    have hlone : Lone { q with
        retryCounts := q.retryCounts.insert batch.scope
          (Dict.getD q.retryCounts batch.scope 0 + 1) } batch.scope := h.congr rfl rfl rfl
    have hfront := hlone.pushFront (batch.events.map batch.toQueued)
    rw [hcap]
    · refine ⟨hfront.congr rfl rfl rfl, rfl, rfl, ?_, fun hne => ?_⟩
      · exact Dict.getD_of_lookup (AList.lookup_insert _) 0
      · exact getD_pushFront_ne_nil _ batch.scope (by simpa using hne)
    · exact hfront.congr rfl rfl rfl

theorem Lone.requeuePreserveTimestamps {q : EventQueue} {batch : FlushBatch}
    (h : q.Lone batch.scope) (hbatch : batch.cancelledEvents = []) (orders : MapOrders) :
    (q.requeuePreserveTimestamps orders batch).Lone batch.scope ∧
      (q.requeuePreserveTimestamps orders batch).retryCounts = q.retryCounts := by
  have hrestore : q.restoreCancelled batch = q := by simp [restoreCancelled, hbatch]
  simp only [EventQueue.requeuePreserveTimestamps, hrestore]
  rw [(h.pushFront _).enforceChannelCap]
  exact ⟨h.pushFront _, rfl⟩

end EventQueue

namespace Turns

variable {scope : SessionScope}

/-- The counter on record is the number of failed attempts, and something keeps it there: the
scope is in flight or its queue still has the batch. -/
structure Counted (scope : SessionScope) (s : Turns) : Prop where
  lone : s.queue.Lone scope
  counts : Dict.getD s.queue.retryCounts scope 0 = s.attempts
  bound : s.attempts ≤ MAX_RETRIES
  phase : match s.phase with
    | .idle | .failed => s.attempts = 0 ∨ Dict.getD s.queue.queues scope [] ≠ []
    | .running batch => scope ∈ s.queue.inFlightScopes ∧
        batch.scope = scope ∧ batch.events ≠ [] ∧ batch.cancelledEvents = []
    | .held => s.attempts = 0

theorem counted_start (dedupMode : DedupMode) (deadline : Duration) :
    (start dedupMode deadline).Counted scope where
  lone := ⟨fun _ _ h => by simp [start, EventQueue.new] at h, Nat.zero_le _, rfl, rfl⟩
  counts := rfl
  bound := Nat.zero_le _
  phase := .inl rfl

theorem Counted.push {s : Turns} (h : s.Counted scope) (orders : MapOrders) {event : QueuedEvent}
    (hscope : event.scope = scope) : (s.step (.push orders event hscope)).Counted scope := by
  obtain ⟨hlone, hcounts, _, hflight, hqueue⟩ := h.lone.push orders hscope
  refine ⟨hlone, (congrArg (Dict.getD · scope 0) hcounts).trans h.counts, h.bound, ?_⟩
  have hphase := h.phase
  simp only [Turns.step]
  cases hp : s.phase with
  | idle | failed =>
    simp only [hp] at hphase
    exact hphase.imp_right hqueue
  | running batch =>
    simp only [hp] at hphase
    exact ⟨hflight ▸ hphase.1, hphase.2⟩
  | held => simpa only [hp] using hphase

theorem Counted.flush {s : Turns} (h : s.Counted scope) (orders : MapOrders) :
    (s.step (.flush orders : TurnStep scope)).Counted scope := by
  cases hp : s.phase with
  | idle =>
    obtain ⟨hlone, hcounts, hout⟩ := h.lone.flushNext orders s.clock
    have hcounts' := (congrArg (Dict.getD · scope 0) hcounts).trans h.counts
    have hphase := h.phase
    simp only [hp] at hphase
    simp only [Turns.step, hp]
    cases hbatch : (s.queue.flushNext orders s.clock).1 with
    | none =>
      simp only [hbatch] at hout
      exact ⟨hlone, hcounts', h.bound, hout ▸ hphase⟩
    | some batch =>
      simp only [hbatch] at hout
      exact ⟨hlone, hcounts', h.bound, hout⟩
  | running | failed | held => simpa only [Turns.step, hp] using h

theorem Counted.fail {s : Turns} (h : s.Counted scope) (orders : MapOrders) (nanos : Nat) :
    (s.step (.fail orders nanos : TurnStep scope)).Counted scope := by
  cases hp : s.phase with
  | running batch =>
    have hbatch := h.phase
    simp only [hp] at hbatch
    obtain ⟨-, rfl, hevents, -⟩ := hbatch
    obtain ⟨hlone, hflight, hout⟩ := h.lone.requeue orders nanos s.clock
    simp only [Turns.step, hp]
    split at hout
    · obtain ⟨hdead, hzero⟩ := hout
      simp only [hdead, Option.isSome_some, if_true]
      exact ⟨hlone, hzero, Nat.zero_le _, .inl rfl⟩
    · next hmax =>
      obtain ⟨hnone, hcount, hqueue⟩ := hout
      simp only [hnone, Option.isSome_none, Bool.false_eq_true, if_false]
      rw [h.counts] at hcount hmax
      exact ⟨hlone, hcount, Nat.not_lt.1 hmax, .inr (hqueue hevents)⟩
  | idle | failed | held => simpa only [Turns.step, hp] using h

theorem Counted.hold {s : Turns} (h : s.Counted scope) (orders : MapOrders)
    (hok : s.Undisturbed (.hold orders : TurnStep scope)) :
    (s.step (.hold orders : TurnStep scope)).Counted scope := by
  cases hp : s.phase with
  | running batch =>
    have hbatch := h.phase
    simp only [hp] at hbatch
    obtain ⟨-, rfl, -, hcancelled⟩ := hbatch
    obtain ⟨hlone, hcounts⟩ := h.lone.requeuePreserveTimestamps hcancelled orders
    simp only [Turns.step, hp]
    exact ⟨hlone, (congrArg (Dict.getD · batch.scope 0) hcounts).trans h.counts, h.bound, hok⟩
  | idle | failed | held => simpa only [Turns.step, hp] using h

theorem markComplete_counts (q : EventQueue) (scope : SessionScope) (now : Instant) :
    (q.markComplete scope now).queues = q.queues ∧
      (q.markComplete scope now).cancelledBatches = q.cancelledBatches ∧
      (q.markComplete scope now).withheldNativeSteer = q.withheldNativeSteer ∧
      Dict.getD (q.markComplete scope now).retryCounts scope 0 =
        if ∃ t ∈ q.retryAfter.lookup scope, now < t then Dict.getD q.retryCounts scope 0 else 0 := by
  unfold EventQueue.markComplete
  cases hl : q.retryAfter.lookup scope with
  | none => simp [hl, Dict.getD]
  | some t =>
    by_cases ht : now < t
    · simp [hl, ht]
    · simp [hl, ht, Dict.getD]

theorem Counted.complete {s : Turns} (h : s.Counted scope)
    (hok : s.Undisturbed (.complete : TurnStep scope)) :
    (s.step (.complete : TurnStep scope)).Counted scope := by
  obtain ⟨hqueues, hcancelled, hwithheld, hcounts⟩ := markComplete_counts s.queue scope s.clock
  have hlone := h.lone.congr hqueues hcancelled hwithheld
  have hphase := h.phase
  cases hp : s.phase with
  | idle | running => simpa only [Turns.step, hp] using h
  | failed =>
    simp only [hp] at hphase
    simp only [Undisturbed, hp] at hok
    simp only [Turns.step, hp]
    refine ⟨hlone, ?_, h.bound, hqueues ▸ hphase⟩
    rw [hcounts, h.counts]
    split
    · rfl
    · next hthrottle => exact (hok.resolve_right hthrottle).symm
  | held =>
    simp only [hp] at hphase
    simp only [Turns.step, hp]
    refine ⟨hlone, ?_, h.bound, .inl hphase⟩
    rw [hcounts, h.counts, hphase, ite_self]

theorem compactExpiredState_counts {q : EventQueue} {scope : SessionScope} (now : Instant)
    (h : Dict.getD q.retryCounts scope 0 = 0 ∨ scope ∈ q.inFlightScopes ∨
      Dict.getD q.queues scope [] ≠ []) :
    Dict.getD (q.compactExpiredState now).retryCounts scope 0 = Dict.getD q.retryCounts scope 0 := by
  simp only [EventQueue.compactExpiredState, Dict.getD, Dict.lookup_retain] at h ⊢
  cases hc : q.retryCounts.lookup scope with
  | none => rfl
  | some n =>
    simp only [hc, Option.getD_some] at h
    obtain rfl | hin | hne := h
    · have hzero : ∀ p : Nat → Bool, ((some 0).filter p).getD 0 = 0 := fun p => by
        rw [Option.filter_some]
        split <;> rfl
      exact hzero _
    · simp [hin, Option.filter_some]
    · cases hq : q.queues.lookup scope with
      | none => simp [hq] at hne
      | some queue =>
        simp only [hq, Option.getD_some] at hne
        simp [hne, Option.filter_some]

theorem Counted.compact {s : Turns} (h : s.Counted scope) :
    (s.step (.compact : TurnStep scope)).Counted scope := by
  refine ⟨h.lone.congr rfl rfl rfl, ?_, h.bound, h.phase⟩
  refine (compactExpiredState_counts s.clock ?_).trans h.counts
  rw [h.counts]
  have hphase := h.phase
  cases hp : s.phase with
  | idle | failed =>
    simp only [hp] at hphase
    exact hphase.imp_right .inr
  | running batch =>
    simp only [hp] at hphase
    exact .inr (.inl hphase.1)
  | held =>
    simp only [hp] at hphase
    exact .inl hphase

theorem Counted.step {s : Turns} (h : s.Counted scope) (t : TurnStep scope)
    (hok : s.Undisturbed t) : (s.step t).Counted scope := by
  cases t with
  | push orders event hscope => exact h.push orders hscope
  | flush orders => exact h.flush orders
  | fail orders nanos => exact h.fail orders nanos
  | hold orders => exact h.hold orders hok
  | complete => exact h.complete hok
  | compact => exact h.compact
  | wait elapsed => exact ⟨h.lone, h.counts, h.bound, h.phase⟩

/-- In a run that holds no failed batch and completes each failed attempt within its backoff,
an attempt that fails after `MAX_RETRIES` failures is dead-lettered, and none before. -/
theorem requeue_dead_letters_iff (dedupMode : DedupMode) (deadline : Duration)
    (turns : List (TurnStep scope))
    (hok : Along step Undisturbed (start dedupMode deadline) turns) :
    let s := runFrom step (start dedupMode deadline) turns
    ∀ batch, s.phase = .running batch → ∀ orders nanos,
      (s.queue.requeue orders batch nanos s.clock).1 =
        if s.attempts = MAX_RETRIES then some batch else none := by
  intro s batch hp orders nanos
  have h : s.Counted scope :=
    hok.preserves (fun s t h ht => h.step t ht) (counted_start dedupMode deadline)
  have hphase := h.phase
  simp only [hp] at hphase
  obtain ⟨-, rfl, -⟩ := hphase
  obtain ⟨-, -, hout⟩ := h.lone.requeue orders nanos s.clock
  rw [h.counts] at hout
  have hbound := h.bound
  split at hout
  · rw [if_pos (by omega)]
    exact hout.1
  · rw [if_neg (by omega)]
    exact hout.1

def dmScope : SessionScope := .conversation ⟨1⟩

def firstEvent : TurnStep dmScope :=
  .push .stored ⟨⟨1⟩, dmScope, ⟨⟨1⟩, ⟨0⟩, 1, 9, [], ""⟩, 1, "mention", rfl⟩ rfl

def failedTurn : List (TurnStep dmScope) :=
  [.flush .stored, .fail .stored 0, .complete, .wait (Duration.fromSecs 400)]

def heldTurn : List (TurnStep dmScope) := [.flush .stored, .hold .stored, .complete]

def afterRun (turns : List (TurnStep dmScope)) : Turns :=
  runFrom step (start .queue (Duration.fromSecs 7300)) turns

def heldThenFailing : List (TurnStep dmScope) :=
  firstEvent :: heldTurn ++ (List.replicate 10 failedTurn).flatten ++ [.flush .stored]

def running? : Phase → Option FlushBatch
  | .running batch => some batch
  | _ => none

theorem requeue_dead_letters_eleventh :
    (afterRun heldThenFailing).attempts = MAX_RETRIES ∧
      ∃ batch, (afterRun heldThenFailing).phase = .running batch ∧ ∀ orders nanos,
        ((afterRun heldThenFailing).queue.requeue orders batch nanos
          (afterRun heldThenFailing).clock).1 = some batch := by
  have hattempts : (afterRun heldThenFailing).attempts = MAX_RETRIES := by decide +kernel
  obtain ⟨batch, hphase⟩ : ∃ batch, (afterRun heldThenFailing).phase = .running batch := by
    have hrunning : (running? (afterRun heldThenFailing).phase).isSome = true := by decide +kernel
    cases hphase : (afterRun heldThenFailing).phase with
    | running batch => exact ⟨batch, rfl⟩
    | idle | failed | held => rw [hphase] at hrunning; cases hrunning
  refine ⟨hattempts, batch, hphase, fun orders nanos => ?_⟩
  have hout := requeue_dead_letters_iff .queue (Duration.fromSecs 7300) heldThenFailing
    (by decide +kernel) batch hphase orders nanos
  exact hout.trans (if_pos hattempts)

theorem hold_resets_attempts :
    let turns := firstEvent :: failedTurn ++ heldTurn ++ (List.replicate 9 failedTurn).flatten
    (afterRun turns).attempts = MAX_RETRIES ∧
      (afterRun (turns ++ failedTurn)).attempts = MAX_RETRIES + 1 := by
  decide +kernel

end Turns

end Colony.Acp
