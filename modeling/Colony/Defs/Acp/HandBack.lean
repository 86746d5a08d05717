import Colony.Defs.Acp.QueueInvariant

namespace Colony.Acp

open Colony.Data Colony.Core

inductive HandBack
  | requeue (batch : FlushBatch) (nanos : Nat) (now : Instant)
  | requeuePreserveTimestamps (batch : FlushBatch)
  | releaseNativeSteer (scope : SessionScope) (eventId : String)
  | recoverWithheld (scope : SessionScope)

structure Handed where
  scope : SessionScope
  events : List QueuedEvent
  cancelled : List BatchEvent

namespace HandBack

def run (q : EventQueue) (orders : MapOrders) : HandBack → EventQueue
  | .requeue batch nanos now => (q.requeue orders batch nanos now).2
  | .requeuePreserveTimestamps batch => q.requeuePreserveTimestamps orders batch
  | .releaseNativeSteer scope eventId => q.releaseNativeSteer orders scope eventId
  | .recoverWithheld scope => q.recoverWithheldForExpiredScope orders scope

/-- What the call hands back; a dead-lettered batch and an event that is not withheld are not. -/
def handed (q : EventQueue) (orders : MapOrders) : HandBack → Option Handed
  | .requeue batch nanos now => match (q.requeue orders batch nanos now).1 with
    | none => some ⟨batch.scope, batch.events.map batch.toQueued, batch.cancelledEvents⟩
    | some _ => none
  | .requeuePreserveTimestamps batch =>
    some ⟨batch.scope, batch.events.map batch.toQueued, batch.cancelledEvents⟩
  | .releaseNativeSteer scope eventId =>
    ((Dict.getD q.withheldNativeSteer scope []).find? fun qe =>
      decide (qe.event.id.toHex = eventId)).map fun qe => ⟨scope, [qe], []⟩
  | .recoverWithheld scope => (q.withheldNativeSteer.lookup scope).map fun entries => ⟨scope, entries, []⟩

def keepsCancelled : HandBack → Bool
  | .requeue .. => false
  | _ => true

end HandBack

namespace EventQueue

variable {q q' : EventQueue} {orders : MapOrders} {scope : SessionScope} {events : List QueuedEvent}

/-- The events stand at the front of their scope, the carry-over precedes what is there, and the
caps dropped the newest waiting events of the scope only, as many as its own cap demands. -/
def Restored (q q' : EventQueue) (handed : Handed) : Prop :=
  handed.events <+: Dict.getD q'.queues handed.scope [] ∧
    q'.evicted = q.evicted ++
      (Dict.getD q.queues handed.scope []).drop (MAX_PENDING_PER_SCOPE - handed.events.length) ∧
    Dict.getD q'.cancelledBatches handed.scope [] =
      handed.cancelled ++ Dict.getD q.cancelledBatches handed.scope []

/-- With `n` more events in the scope, trimmed to the cap of the scope, the channel is within its own. -/
def Room (q : EventQueue) (scope : SessionScope) (n : Nat) : Prop :=
  q.channelEventTotal scope.channelId +
      min MAX_PENDING_PER_SCOPE (n + (Dict.getD q.queues scope []).length) ≤
    MAX_PENDING_PER_CHANNEL + (Dict.getD q.queues scope []).length

instance (q : EventQueue) (scope : SessionScope) (n : Nat) : Decidable (q.Room scope n) :=
  inferInstanceAs (Decidable (_ ≤ _))

theorem room_iff : q.Room scope events.length ↔
    (q.pushFront scope events).channelEventTotal scope.channelId ≤ MAX_PENDING_PER_CHANNEL := by
  have hins := channelEventTotal_insert
    (show (q.pushFront scope events).queues = q.queues.insert scope _ from rfl) scope.channelId
  simp only [if_true, List.length_take, List.length_append] at hins
  unfold Room
  omega

theorem evicted_enforceChannelCap (orders : MapOrders) {channelId : Uuid}
    (h : MAX_PENDING_PER_CHANNEL < q.channelEventTotal channelId) :
    q.evicted.length < (q.enforceChannelCap orders channelId).evicted.length := by
  have hgrows : ∀ (q : EventQueue) scope, q.evicted.length ≤ (q.evictFront scope).evicted.length := by
    intro q scope
    unfold evictFront
    split
    · exact Nat.le_refl _
    · simp
  rw [enforceChannelCap_eq, if_pos h]
  cases hvictim : q.capVictim orders channelId with
  | none =>
    have := channelEventTotal_of_no_capVictim q orders channelId hvictim
    omega
  | some scope =>
    obtain ⟨-, qe, queue, hl⟩ := lookup_of_capVictim q orders channelId hvictim
    have hone : (q.evictFront scope).evicted.length = q.evicted.length + 1 := by
      simp [evictFront, hl]
    refine enforceChannelCap_keeps (p := fun q' => q.evicted.length < q'.evicted.length)
      (fun q' scope hlt => Nat.lt_of_lt_of_le hlt (hgrows q' scope)) ?_
    omega

theorem restored_iff (q : EventQueue) (orders : MapOrders) (scope : SessionScope)
    {events : List QueuedEvent} (hlen : events.length ≤ MAX_PENDING_PER_SCOPE) :
    Restored q ((q.pushFront scope events).enforceChannelCap orders scope.channelId)
      ⟨scope, events, []⟩ ↔ q.Room scope events.length := by
  have hdrop : (q.pushFront scope events).evicted = q.evicted ++
      (Dict.getD q.queues scope []).drop (MAX_PENDING_PER_SCOPE - events.length) := by
    simp only [pushFront, List.drop_append, List.drop_eq_nil_of_le hlen, List.nil_append]
  rw [room_iff]
  constructor
  · intro h
    by_contra hover
    have hgrown := evicted_enforceChannelCap orders (Nat.lt_of_not_le hover)
    rw [h.2.1, hdrop] at hgrown
    exact Nat.lt_irrefl _ hgrown
  · intro hroom
    rw [enforceChannelCap_of_le _ _ _ hroom]
    refine ⟨?_, hdrop, rfl⟩
    simp only [pushFront]
    rw [Dict.getD_insert, if_pos rfl, List.take_append, List.take_of_length_le hlen]
    exact List.prefix_append _ _

theorem Restored.iff_of_cancelled {q' : EventQueue} {handed : Handed}
    (h : Dict.getD q'.cancelledBatches handed.scope [] = Dict.getD q.cancelledBatches handed.scope []) :
    Restored q q' handed ↔ Restored q q' { handed with cancelled := [] } ∧ handed.cancelled = [] := by
  unfold Restored
  dsimp only
  rw [h]
  constructor
  · rintro ⟨hfront, hevicted, hcancelled⟩
    exact ⟨⟨hfront, hevicted, rfl⟩, by simpa using hcancelled.symm⟩
  · rintro ⟨⟨hfront, hevicted, -⟩, hnil⟩
    exact ⟨hfront, hevicted, by rw [hnil]; rfl⟩

theorem requeue_of_none {batch : FlushBatch} {nanos : Nat} {now : Instant}
    (h : (q.requeue orders batch nanos now).1 = none) :
    ∃ counts after, (q.requeue orders batch nanos now).2 =
      (({ q with retryCounts := counts, retryAfter := after } : EventQueue).pushFront batch.scope
        (batch.events.map batch.toQueued)).enforceChannelCap orders batch.scope.channelId := by
  unfold EventQueue.requeue at h ⊢
  dsimp only at h ⊢
  split at h
  · cases h
  next hretry =>
    rw [if_neg hretry, batch.scope_channelId]
    exact ⟨q.retryCounts.insert batch.scope (Dict.getD q.retryCounts batch.scope 0 + 1),
      q.retryAfter.insert batch.scope
        (now + retryDelay (Dict.getD q.retryCounts batch.scope 0 + 1) nanos), rfl⟩

theorem requeue_restored_iff {batch : FlushBatch} {nanos : Nat} {now : Instant}
    (hnone : (q.requeue orders batch nanos now).1 = none)
    (hlen : (batch.events.map batch.toQueued).length ≤ MAX_PENDING_PER_SCOPE) :
    Restored q (q.requeue orders batch nanos now).2
        ⟨batch.scope, batch.events.map batch.toQueued, batch.cancelledEvents⟩ ↔
      q.Room batch.scope (batch.events.map batch.toQueued).length ∧ batch.cancelledEvents = [] := by
  obtain ⟨counts, after, hq⟩ := requeue_of_none hnone
  rw [Restored.iff_of_cancelled, hq]
  · exact and_congr_left fun _ =>
      restored_iff { q with retryCounts := counts, retryAfter := after } orders batch.scope hlen
  · rw [hq, enforceChannelCap_cancelled]
    rfl

theorem restoreCancelled_cancelled (q : EventQueue) (batch : FlushBatch) :
    Dict.getD (q.restoreCancelled batch).cancelledBatches batch.scope [] =
      batch.cancelledEvents ++ Dict.getD q.cancelledBatches batch.scope [] := by
  unfold restoreCancelled
  dsimp only
  split
  next hempty => rw [List.isEmpty_iff.1 hempty, List.nil_append]
  next => rw [Dict.getD_insert, if_pos rfl]

theorem restoreCancelled_frame (q : EventQueue) (batch : FlushBatch) :
    ∃ cancelled reasons,
      q.restoreCancelled batch = { q with cancelledBatches := cancelled, cancelReasons := reasons } := by
  unfold restoreCancelled
  dsimp only
  split
  · exact ⟨_, _, rfl⟩
  · exact ⟨_, _, rfl⟩

theorem preserve_restored_iff (batch : FlushBatch)
    (hlen : (batch.events.map batch.toQueued).length ≤ MAX_PENDING_PER_SCOPE) :
    Restored q (q.requeuePreserveTimestamps orders batch)
        ⟨batch.scope, batch.events.map batch.toQueued, batch.cancelledEvents⟩ ↔
      q.Room batch.scope (batch.events.map batch.toQueued).length := by
  have hcommon := restored_iff (q.restoreCancelled batch) orders batch.scope hlen
  have hcancelled := restoreCancelled_cancelled q batch
  obtain ⟨cancelled, reasons, hq⟩ := restoreCancelled_frame q batch
  have hout : q.requeuePreserveTimestamps orders batch =
      ((q.restoreCancelled batch).pushFront batch.scope (batch.events.map batch.toQueued)).enforceChannelCap
        orders batch.scope.channelId := by
    rw [batch.scope_channelId]
    rfl
  have hkept : Dict.getD (q.requeuePreserveTimestamps orders batch).cancelledBatches batch.scope [] =
      batch.cancelledEvents ++ Dict.getD q.cancelledBatches batch.scope [] := by
    rw [hout, enforceChannelCap_cancelled]
    exact hcancelled
  rw [hq] at hcommon
  unfold Restored at hcommon ⊢
  dsimp only at hcommon ⊢
  rw [hout, hq] at hkept ⊢
  rw [enforceChannelCap_cancelled] at hcommon hkept ⊢
  simp only [hkept, and_true]
  simpa [pushFront, Room, channelEventTotal] using hcommon

/-- What is handed back is kept, and only newer events of its scope are dropped, exactly when the
channel has room for it; and `requeue` must not be given cancelled events. -/
theorem handBack_restored_iff (q : EventQueue) (orders : MapOrders) (call : HandBack) {handed : Handed}
    (hhanded : call.handed q orders = some handed)
    (hlen : handed.events.length ≤ MAX_PENDING_PER_SCOPE) :
    Restored q (call.run q orders) handed ↔
      q.Room handed.scope handed.events.length ∧
        (call.keepsCancelled = true ∨ handed.cancelled = []) := by
  cases call with
  | requeue batch nanos now =>
    simp only [HandBack.handed] at hhanded
    split at hhanded
    next hnone =>
      cases hhanded
      simpa [HandBack.run, HandBack.keepsCancelled] using requeue_restored_iff hnone hlen
    next => cases hhanded
  | requeuePreserveTimestamps batch =>
    cases hhanded
    simpa [HandBack.run, HandBack.keepsCancelled] using preserve_restored_iff batch hlen
  | releaseNativeSteer scope eventId =>
    obtain ⟨qe, hfind, rfl⟩ := Option.map_eq_some_iff.1 hhanded
    cases hl : q.withheldNativeSteer.lookup scope with
    | none =>
      simp only [Dict.getD, hl] at hfind
      cases hfind
    | some entries =>
      rw [Dict.getD_of_lookup hl] at hfind
      simp only [HandBack.run, releaseNativeSteer, hl, hfind, HandBack.keepsCancelled, true_or,
        and_true]
      exact restored_iff { q with withheldNativeSteer := _ } orders scope hlen
  | recoverWithheld scope =>
    obtain ⟨entries, hl, rfl⟩ := Option.map_eq_some_iff.1 hhanded
    simp only [HandBack.run, recover_eq, hl, HandBack.keepsCancelled, true_or, and_true]
    exact restored_iff { q with withheldNativeSteer := q.withheldNativeSteer.erase scope } orders scope hlen

theorem oldest_handed_back_dropped {qe : QueuedEvent} (hempty : Dict.getD q.queues scope [] = [])
    (hfull : q.channelEventTotal scope.channelId = MAX_PENDING_PER_CHANNEL)
    (holdest : ∀ k qe' queue, k.channelId = scope.channelId →
      q.queues.lookup k = some (qe' :: queue) → qe.receivedAt < qe'.receivedAt) :
    let q' := (q.pushFront scope [qe]).enforceChannelCap orders scope.channelId
    Dict.getD q'.queues scope [] = [] ∧ q'.evicted = q.evicted ++ [qe] := by
  intro q'
  have htotal := channelEventTotal_insert
    (show (q.pushFront scope [qe]).queues = q.queues.insert scope _ from rfl) scope.channelId
  simp only [hempty, List.append_nil, List.length_take, List.length_singleton, List.length_nil,
    if_true] at htotal
  have hscope : (q.pushFront scope [qe]).queues.lookup scope = some [qe] := by
    simp only [pushFront, hempty]
    exact AList.lookup_insert _
  have hevicted : (q.pushFront scope [qe]).evicted = q.evicted := by
    simp only [pushFront, hempty]
    exact List.append_nil _
  have hone : min MAX_PENDING_PER_SCOPE 1 = 1 := rfl
  have hq' : q' = (q.pushFront scope [qe]).evictFront scope := by
    change (q.pushFront scope [qe]).enforceChannelCap orders scope.channelId = _
    rw [enforceChannelCap_eq, if_pos (by omega)]
    cases hvictim : (q.pushFront scope [qe]).capVictim orders scope.channelId with
    | none =>
      have := channelEventTotal_of_no_capVictim _ _ _ hvictim
      omega
    | some victim =>
      have hleft := channelEventTotal_evictFront _ _ _ hvictim
      obtain ⟨hchannel, -⟩ := lookup_of_capVictim _ _ _ hvictim
      obtain ⟨first, queue, hl, hfirst⟩ := of_capVictim hvictim
      -- Any other front is newer than the event handed back.
      have hsame : victim = scope := by
        by_contra hne
        have hl' : q.queues.lookup victim = some (first :: queue) := by
          simpa only [pushFront, AList.lookup_insert_ne hne] using hl
        exact absurd (hfirst scope qe [] rfl hscope)
          (Nat.not_le.2 (holdest victim first queue hchannel hl'))
      rw [hsame] at hleft ⊢
      exact enforceChannelCap_of_le _ _ _ (by omega)
  rw [hq']
  refine ⟨?_, ?_⟩
  · rw [getD_evictFront, Dict.getD_of_lookup hscope, if_pos rfl]
    rfl
  · simp only [evictFront, hscope, hevicted]
    rfl

def appended (q : EventQueue) (event : QueuedEvent) : EventQueue :=
  { q with queues := q.queues.insert event.scope (Dict.getD q.queues event.scope [] ++ [event]) }

theorem channelEventTotal_appended (q : EventQueue) (event : QueuedEvent) :
    (q.appended event).channelEventTotal event.scope.channelId =
      q.channelEventTotal event.scope.channelId + 1 := by
  have hins := channelEventTotal_insert
    (show (q.appended event).queues = q.queues.insert event.scope _ from rfl) event.scope.channelId
  simp only [if_true, List.length_append, List.length_singleton] at hins
  omega

theorem push_of_room {event : QueuedEvent} (hmode : q.dedupMode = .queue)
    (hroom : q.channelEventTotal event.scope.channelId < MAX_PENDING_PER_CHANNEL)
    (orders : MapOrders) : q.push orders event = (true, q.appended event) := by
  have hlen : ¬(Dict.getD q.queues event.scope []).length ≥ MAX_PENDING_PER_SCOPE := by
    have := length_le_channelEventTotal q event.scope
    have : MAX_PENDING_PER_CHANNEL = MAX_PENDING_PER_SCOPE := rfl
    omega
  have hcap : (q.appended event).enforceChannelCap orders event.channelId = q.appended event := by
    refine enforceChannelCap_of_le _ _ _ ?_
    rw [← event.scope_channelId, channelEventTotal_appended]
    exact hroom
  unfold push
  rw [if_neg fun h => by cases hmode.symm.trans h.1]
  simp only [hlen, decide_false, Bool.false_eq_true, if_false, List.append_nil]
  exact congrArg (Prod.mk true) hcap

end EventQueue

namespace Harness

theorem run_pushes {scope : SessionScope} (orders : MapOrders) {events : List QueuedEvent}
    (hscope : ∀ qe ∈ events, qe.scope = scope) {s : Harness} (hmode : s.queue.dedupMode = .queue)
    (hroom : s.queue.channelEventTotal scope.channelId + events.length ≤ MAX_PENDING_PER_CHANNEL) :
    let s' := runFrom step s (events.map (Call.push orders))
    s'.held = s.held ∧ s'.queue.evicted = s.queue.evicted ∧
      s'.queue.channelEventTotal scope.channelId =
        s.queue.channelEventTotal scope.channelId + events.length ∧
      Dict.getD s'.queue.queues scope [] = Dict.getD s.queue.queues scope [] ++ events ∧
      ∀ k, k ≠ scope → s'.queue.queues.lookup k = s.queue.queues.lookup k := by
  induction events generalizing s with
  | nil => exact ⟨rfl, rfl, rfl, (List.append_nil _).symm, fun _ _ => rfl⟩
  | cons event events ih =>
    obtain rfl := hscope event List.mem_cons_self
    rw [List.length_cons] at hroom
    have hpush : s.queue.push orders event = (true, s.queue.appended event) :=
      EventQueue.push_of_room hmode (by omega) orders
    have htotal := EventQueue.channelEventTotal_appended s.queue event
    obtain ⟨hheld, hevicted, htotal', hqueue, hother⟩ := ih (s := s.step (.push orders event))
      (fun qe hqe => hscope qe (List.mem_cons_of_mem _ hqe))
      (by simp only [step, hpush]; exact hmode)
      (by simp only [step, hpush]; omega)
    simp only [step, hpush] at hheld hevicted htotal' hqueue hother
    simp only [List.map_cons, runFrom_cons, step, hpush, List.length_cons]
    refine ⟨hheld, hevicted, by omega, hqueue.trans ?_, fun k hk => (hother k hk).trans ?_⟩
    · simp only [EventQueue.appended, Dict.getD_insert, if_true, List.append_assoc,
        List.singleton_append]
    · exact AList.lookup_insert_ne hk

def dispatched : Harness :=
  runFrom step (start .queue 100) [.push .stored (mention 1), .flushNext .stored 1]

def dispatchedBatch : FlushBatch :=
  ⟨oneChannel, .conversation oneChannel, [(mention 1).toBatch], [], none,
    SessionScope.conversation_channelId oneChannel⟩

def threadMention (n : Nat) : QueuedEvent :=
  ⟨oneChannel, .thread oneChannel "root", ⟨⟨n⟩, ⟨0⟩, n, 9, [], ""⟩, n, "mention", rfl⟩

-- Two mentions are out, and while they are a third and one of a thread come in.
def busy : Harness :=
  runFrom step (start .queue 100) [.push .stored (mention 1), .push .stored (mention 2),
    .flushNext .stored 1, .push .stored (mention 3), .push .stored (threadMention 4)]

def busyBatch : FlushBatch :=
  { dispatchedBatch with events := [(mention 1).toBatch, (mention 2).toBatch] }

theorem handBack_restored_dispatched :
    busy.held = [busyBatch] ∧
      Dict.getD ((HandBack.requeuePreserveTimestamps busyBatch).run busy.queue .stored).queues
        (.conversation oneChannel) [] = [mention 1, mention 2, mention 3] ∧
      EventQueue.Restored busy.queue
        ((HandBack.requeuePreserveTimestamps busyBatch).run busy.queue .stored)
        ⟨.conversation oneChannel, [mention 1, mention 2], []⟩ :=
  ⟨by decide, by decide, (EventQueue.handBack_restored_iff busy.queue .stored
    (.requeuePreserveTimestamps busyBatch) rfl (by decide)).2 ⟨by decide, .inl rfl⟩⟩

def threadMentions : List QueuedEvent := (List.range 500).map fun n => threadMention (n + 2)

/-- While the batch is out, a thread of its channel fills the channel's cap; then the batch is
handed back. -/
def crowdedOut : List Call :=
  threadMentions.map (Call.push .stored) ++ [.requeuePreserveTimestamps .stored 0]

theorem threadMentions_length : threadMentions.length = 500 := by
  rw [threadMentions, List.length_map, List.length_range]

theorem dispatchedBatch_dropped {s : Harness} (hheld : s.held = [dispatchedBatch])
    (hfull : s.queue.channelEventTotal oneChannel = MAX_PENDING_PER_CHANNEL)
    (hqueue : Dict.getD s.queue.queues (.thread oneChannel "root") [] = threadMentions)
    (hother : ∀ k, k ≠ .thread oneChannel "root" → s.queue.queues.lookup k = none) :
    let q := (s.step (.requeuePreserveTimestamps .stored 0)).queue
    Dict.getD q.queues (.conversation oneChannel) [] = [] ∧ q.evicted = s.queue.evicted ++ [mention 1] := by
  have hempty : Dict.getD s.queue.queues (.conversation oneChannel) [] = [] := by
    rw [Dict.getD, hother _ (by decide)]
    rfl
  have hnewer : ∀ k qe' queue, k.channelId = oneChannel →
      s.queue.queues.lookup k = some (qe' :: queue) → (mention 1).receivedAt < qe'.receivedAt := by
    intro k qe' queue _ hk
    by_cases hroot : k = .thread oneChannel "root"
    · rw [hroot] at hk
      rw [Dict.getD_of_lookup hk] at hqueue
      have hmem : qe' ∈ threadMentions := hqueue ▸ List.mem_cons_self
      obtain ⟨n, -, rfl⟩ := List.mem_map.1 hmem
      exact Nat.lt_add_left n (by decide)
    · rw [hother k hroot] at hk
      cases hk
  have hstep : (s.step (.requeuePreserveTimestamps .stored 0)).queue =
      (s.queue.pushFront (.conversation oneChannel) [mention 1]).enforceChannelCap .stored
        oneChannel := by
    rw [step, giveBack, hheld]
    rfl
  intro q
  rw [show q = _ from hstep]
  exact EventQueue.oldest_handed_back_dropped hempty hfull hnewer

theorem handed_back_dropped :
    let q := (runFrom step dispatched crowdedOut).queue
    Dict.getD q.queues (.conversation oneChannel) [] = [] ∧ q.evicted = [mention 1] := by
  have hscope : ∀ qe ∈ threadMentions, qe.scope = .thread oneChannel "root" := by
    intro qe hqe
    obtain ⟨n, -, rfl⟩ := List.mem_map.1 hqe
    rfl
  have hnone : dispatched.queue.queues = ∅ := AList.ext (by decide)
  obtain ⟨hheld, hevicted, htotal, hqueue, hother⟩ := run_pushes .stored hscope (s := dispatched)
    (by decide) (by rw [threadMentions_length]; decide)
  rw [crowdedOut, runFrom_append]
  generalize runFrom step dispatched _ = s at hheld hevicted htotal hqueue hother ⊢
  rw [hnone] at hother
  have hnil : Dict.getD dispatched.queue.queues (.thread oneChannel "root") [] = [] := by
    rw [hnone]
    rfl
  rw [hnil, List.nil_append] at hqueue
  rw [threadMentions_length] at htotal
  have hdropped := dispatchedBatch_dropped (hheld.trans (by decide)) (htotal.trans (by decide)) hqueue
    hother
  rw [hevicted, show dispatched.queue.evicted = [] by decide, List.nil_append] at hdropped
  rw [runFrom_cons, runFrom_nil]
  exact hdropped

end Harness

end Colony.Acp
