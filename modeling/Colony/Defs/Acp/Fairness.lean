import Colony.Defs.Acp.QueueInvariant

namespace Colony.Acp

open Colony.Data Colony.Core

namespace EventQueue

def InOrder (queue : List QueuedEvent) : Prop :=
  queue.Pairwise fun a b => a.receivedAt ≤ b.receivedAt

instance (queue : List QueuedEvent) : Decidable (InOrder queue) :=
  inferInstanceAs (Decidable (List.Pairwise _ _))

def Fits (q : EventQueue) (scope : SessionScope) (events : List QueuedEvent) : Prop :=
  InOrder (events ++ Dict.getD q.queues scope [])

instance (q : EventQueue) (scope : SessionScope) (events : List QueuedEvent) :
    Decidable (q.Fits scope events) :=
  inferInstanceAs (Decidable (InOrder _))

def Ordered (q : EventQueue) : Prop := Dict.Each (fun _ => InOrder) q.queues

variable {q : EventQueue} {scope : SessionScope} {events : List QueuedEvent}

theorem inOrder_shrinks : Shrinks fun _ => InOrder := fun _ _ _ hsub _ h => h.sublist hsub

theorem Ordered.getD (h : q.Ordered) (scope : SessionScope) : InOrder (Dict.getD q.queues scope []) := by
  by_cases hnil : Dict.getD q.queues scope [] = []
  · rw [hnil]
    exact List.Pairwise.nil
  · exact Dict.Each.getD h hnil

theorem Ordered.restore (h : q.Ordered) (hfits : q.Fits scope events) (orders : MapOrders)
    (channelId : Uuid) : ((q.pushFront scope events).enforceChannelCap orders channelId).Ordered :=
  inOrder_shrinks.restore h channelId (hfits.sublist (List.take_sublist _ _))

theorem Ordered.push (h : q.Ordered) (orders : MapOrders) {event : QueuedEvent}
    (hlast : ∀ qe ∈ Dict.getD q.queues event.scope [], qe.receivedAt ≤ event.receivedAt) :
    (q.push orders event).2.Ordered := by
  unfold EventQueue.push
  split
  · exact h
  · refine inOrder_shrinks.enforceChannelCap (Dict.Each.insert h ?_) event.channelId
    have hall : InOrder (Dict.getD q.queues event.scope [] ++ [event]) := by
      refine List.pairwise_append.2 ⟨h.getD event.scope, List.pairwise_singleton _ _, ?_⟩
      intro qe hqe x hx
      exact List.mem_singleton.1 hx ▸ hlast qe hqe
    refine hall.sublist (List.Sublist.append ?_ (List.Sublist.refl _))
    split
    · exact List.drop_sublist _ _
    · exact List.Sublist.refl _

theorem Ordered.expireInFlight (h : q.Ordered) {orders : MapOrders} {now : Instant}
    (hfits : ∀ scope ∈ q.expired orders now,
      q.Fits scope (Dict.getD q.withheldNativeSteer scope [])) :
    (q.expireInFlight orders now).Ordered := by
  rw [expireInFlight_eq]
  refine inOrder_shrinks.expireScopes h fun scope hscope entries hl queue hqueue => ?_
  have hentries := hfits scope hscope
  rw [Dict.getD_of_lookup hl] at hentries
  exact hentries.sublist ((List.take_sublist _ _).trans ((List.Sublist.refl entries).append hqueue))

theorem Ordered.flushNext (h : q.Ordered) {orders : MapOrders} {now : Instant}
    (hfits : ∀ scope ∈ q.expired orders now,
      q.Fits scope (Dict.getD q.withheldNativeSteer scope [])) :
    (q.flushNext orders now).2.Ordered := by
  have h := h.expireInFlight hfits
  have hflushed := flushNext_flushed q orders now
  generalize q.flushNext orders now = out at hflushed ⊢
  cases hflushed with
  | queued scope hscope => exact inOrder_shrinks.putBack h (List.drop_sublist _ _)
  | cancelled scope hscope => exact h
  | nothing => exact h

theorem Ordered.markComplete (h : q.Ordered) (scope : SessionScope) (now : Instant) :
    (q.markComplete scope now).Ordered := by
  unfold EventQueue.markComplete
  dsimp only
  split
  · split <;> exact h
  · exact h

theorem Ordered.requeue (h : q.Ordered) (orders : MapOrders) {b : FlushBatch} (nanos : Nat)
    (now : Instant) (hfits : Dict.getD q.retryCounts b.scope 0 < MAX_RETRIES →
      q.Fits b.scope (b.events.map b.toQueued)) : (q.requeue orders b nanos now).2.Ordered := by
  unfold EventQueue.requeue
  dsimp only
  split
  · exact h
  next htries =>
    have hrestored := Ordered.restore (q := { q with
      retryCounts := q.retryCounts.insert b.scope (Dict.getD q.retryCounts b.scope 0 + 1)
      retryAfter := q.retryAfter.insert b.scope
        (now + retryDelay (Dict.getD q.retryCounts b.scope 0 + 1) nanos) })
      h (hfits (Nat.le_of_not_lt htries)) orders b.channelId
    exact hrestored

theorem Ordered.requeuePreserveTimestamps (h : q.Ordered) (orders : MapOrders) {b : FlushBatch}
    (hfits : q.Fits b.scope (b.events.map b.toQueued)) :
    (q.requeuePreserveTimestamps orders b).Ordered := by
  have hqueues := restoreCancelled_queues q b
  refine Ordered.restore ?_ ?_ orders b.channelId
  · rw [Ordered, hqueues]
    exact h
  · rw [Fits, hqueues]
    exact hfits

theorem Ordered.markNativeSteerPending (h : q.Ordered) (scope : SessionScope) (eventId : String) :
    (q.markNativeSteerPending scope eventId).2.Ordered := by
  unfold EventQueue.markNativeSteerPending
  split
  · exact h
  next queue hl =>
    split
    · exact h
    · exact inOrder_shrinks.putBack h (Dict.getD_of_lookup hl [] ▸ List.eraseP_sublist)

theorem Ordered.releaseNativeSteer (h : q.Ordered) (orders : MapOrders) {eventId : String}
    (hfits : ∀ qe ∈ (Dict.getD q.withheldNativeSteer scope []).find? fun qe =>
      decide (qe.event.id.toHex = eventId), q.Fits scope [qe]) :
    (q.releaseNativeSteer orders scope eventId).Ordered := by
  unfold EventQueue.releaseNativeSteer
  split
  · exact h
  next entries hl =>
    rw [Dict.getD_of_lookup hl] at hfits
    split
    · exact h
    next qe hfind =>
      have hrestored := Ordered.restore (q := { q with
        withheldNativeSteer := Dict.putBack q.withheldNativeSteer scope
          (entries.eraseP fun qe => decide (qe.event.id.toHex = eventId)) })
        h (hfits qe hfind) orders scope.channelId
      exact hrestored

theorem Ordered.removeEvent (h : q.Ordered) (scope : SessionScope) (eventId : String) :
    (q.removeEvent scope eventId).Ordered := by
  simp only [Ordered, EventQueue.removeEvent, dropEvent]
  split
  · exact h
  next queue hl =>
    exact inOrder_shrinks.putBack h (Dict.getD_of_lookup hl [] ▸ List.filter_sublist)

theorem Ordered.extendInFlightDeadline (h : q.Ordered) (scope : SessionScope) (maxTurnSecs : Nat)
    (now : Instant) : (q.extendInFlightDeadline scope maxTurnSecs now).Ordered := by
  unfold EventQueue.extendInFlightDeadline
  split
  · exact h
  · dsimp only
    split <;> exact h

theorem Ordered.oldest_first (h : q.Ordered) {orders : MapOrders} {now : Instant}
    (hscope : q.nextScope orders now = some scope) {k : SessionScope} (hk : q.Eligible now k)
    {qe : QueuedEvent} (hqe : qe ∈ Dict.getD q.queues k []) :
    ∃ oldest ∈ Dict.getD q.queues scope [], oldest.receivedAt ≤ qe.receivedAt := by
  obtain ⟨oldest, queue, hl, -, hleast⟩ := of_nextScope hscope
  refine ⟨oldest, Dict.getD_of_lookup hl [] ▸ List.mem_cons_self, ?_⟩
  cases hother : q.queues.lookup k with
  | none =>
    rw [Dict.getD, hother] at hqe
    cases hqe
  | some other =>
    rw [Dict.getD_of_lookup hother] at hqe
    have horder : InOrder other := h k other hother
    cases other with
    | nil => cases hqe
    | cons front rest =>
      refine (hleast k front rest hother hk).trans ?_
      rcases List.mem_cons.1 hqe with rfl | hrest
      · exact Nat.le_refl _
      · exact List.rel_of_pairwise_cons horder hrest

end EventQueue

namespace Harness

open EventQueue

def pushTimes (calls : List Call) : List Instant :=
  calls.filterMap fun
    | .push _ event => some event.receivedAt
    | _ => none

/-- The call puts events back into the queues in order of arrival only: those of a batch, one that
was withheld, or all that were withheld for a scope past its deadline. -/
def KeepsOrder (s : Harness) : Call → Prop
  | .requeue _ i _ _ => ∀ b ∈ s.held[i]?, Dict.getD s.queue.retryCounts b.scope 0 < MAX_RETRIES →
      s.queue.Fits b.scope (b.events.map b.toQueued)
  | .requeuePreserveTimestamps _ i => ∀ b ∈ s.held[i]?,
      s.queue.Fits b.scope (b.events.map b.toQueued)
  | .releaseNativeSteer _ scope eventId =>
      ∀ qe ∈ (Dict.getD s.queue.withheldNativeSteer scope []).find? fun qe =>
        decide (qe.event.id.toHex = eventId), s.queue.Fits scope [qe]
  | .flushNext orders now | .hasFlushableWork orders now =>
      ∀ scope ∈ s.queue.expired orders now,
        s.queue.Fits scope (Dict.getD s.queue.withheldNativeSteer scope [])
  | _ => True

instance (s : Harness) : (call : Call) → Decidable (KeepsOrder s call)
  | .requeue _ i _ _ => inferInstanceAs (Decidable (∀ b ∈ s.held[i]?, _ → _))
  | .requeuePreserveTimestamps _ i => inferInstanceAs (Decidable (∀ b ∈ s.held[i]?, _))
  | .releaseNativeSteer _ scope _ =>
    inferInstanceAs (Decidable (∀ qe ∈ (Dict.getD s.queue.withheldNativeSteer scope []).find? _, _))
  | .flushNext orders now => inferInstanceAs (Decidable (∀ scope ∈ s.queue.expired orders now, _))
  | .hasFlushableWork orders now =>
    inferInstanceAs (Decidable (∀ scope ∈ s.queue.expired orders now, _))
  | .push .. | .markComplete .. | .complete .. | .requeueAsCancelled ..
  | .markNativeSteerPending .. | .removeEvent .. | .drainChannel .. | .compactExpiredState ..
  | .extendInFlightDeadline .. => .isTrue trivial

variable {calls : List Call} {s : Harness}

theorem pushTimes_append (calls calls' : List Call) :
    pushTimes (calls ++ calls') = pushTimes calls ++ pushTimes calls' := List.filterMap_append

theorem Stored.receivedAt_le (h : s.Stored calls) {orders : MapOrders} {event : QueuedEvent}
    (htimes : (pushTimes (calls ++ [.push orders event])).Pairwise (· ≤ ·)) {scope : SessionScope}
    {qe : QueuedEvent} (hqe : qe ∈ Dict.getD s.queue.queues scope []) :
    qe.receivedAt ≤ event.receivedAt := by
  obtain ⟨-, orders', pushed, hmem, -, hbatch⟩ := h.kept.mine hqe
  have hreceived : pushed.receivedAt = qe.receivedAt := congrArg BatchEvent.receivedAt hbatch
  have htime : qe.receivedAt ∈ pushTimes calls :=
    List.mem_filterMap.2 ⟨_, hmem, congrArg some hreceived⟩
  rw [pushTimes_append] at htimes
  exact (List.pairwise_append.1 htimes).2.2 _ htime _ List.mem_cons_self

theorem ordered_giveBack (h : s.queue.Ordered) (i : Nat)
    {f : FlushBatch → EventQueue × List (EventId × Exit)}
    (hf : ∀ b ∈ s.held[i]?, (f b).1.Ordered) : (s.giveBack i f).queue.Ordered := by
  unfold giveBack
  cases hb : s.held[i]? with
  | none => exact h
  | some b => exact hf b hb

theorem ordered_step (h : s.queue.Ordered) (hstored : s.Stored calls) {call : Call}
    (htimes : (pushTimes (calls ++ [call])).Pairwise (· ≤ ·)) (hok : s.KeepsOrder call) :
    (s.step call).queue.Ordered := by
  cases call with
  | push orders event => exact h.push orders fun _ hqe => hstored.receivedAt_le htimes hqe
  | flushNext orders now => exact h.flushNext hok
  | markComplete scope now => exact h.markComplete scope now
  | complete i now => exact ordered_giveBack h i fun b _ => h.markComplete b.scope now
  | requeue orders i nanos now =>
    exact ordered_giveBack h i fun b hb => h.requeue orders nanos now (hok b hb)
  | requeuePreserveTimestamps orders i =>
    exact ordered_giveBack h i fun b hb => h.requeuePreserveTimestamps orders (hok b hb)
  | requeueAsCancelled i reason => exact ordered_giveBack h i fun b _ => h
  | markNativeSteerPending scope eventId => exact h.markNativeSteerPending scope eventId
  | releaseNativeSteer orders scope eventId => exact h.releaseNativeSteer orders hok
  | removeEvent scope eventId => exact h.removeEvent scope eventId
  | drainChannel orders channelId => exact Dict.Each.retain h _
  | hasFlushableWork orders now => exact h.expireInFlight hok
  | compactExpiredState now => exact h
  | extendInFlightDeadline scope maxTurnSecs now =>
    exact h.extendInFlightDeadline scope maxTurnSecs now

theorem ordered_run (dedupMode : DedupMode) (deadline : Duration)
    (htimes : (pushTimes calls).Pairwise (· ≤ ·))
    (hok : Along step KeepsOrder (start dedupMode deadline) calls) :
    (runFrom step (start dedupMode deadline) calls).queue.Ordered := by
  induction calls using List.reverseRecOn with
  | nil => exact Dict.each_empty
  | append_singleton calls call ih =>
    obtain ⟨hbefore, hcall, -⟩ := along_append.1 hok
    have hearlier : (pushTimes calls).Pairwise (· ≤ ·) := by
      rw [pushTimes_append] at htimes
      exact (List.pairwise_append.1 htimes).1
    rw [runFrom_append]
    exact ordered_step (ih hearlier hbefore) (stored_run dedupMode deadline calls) htimes hcall

/-- Events are pushed as they arrive, and every call of the run, the flush included, puts events
back in order of arrival only: the scope served then holds an event as old as any that an eligible
scope holds. -/
theorem flush_serves_oldest (dedupMode : DedupMode) (deadline : Duration) (calls : List Call)
    (htimes : (pushTimes calls).Pairwise (· ≤ ·)) (orders : MapOrders) (now : Instant)
    (hok : Along step KeepsOrder (start dedupMode deadline) (calls ++ [.flushNext orders now])) :
    let q := (runFrom step (start dedupMode deadline) calls).queue.expireInFlight orders now
    ∀ scope, q.nextScope orders now = some scope → ∀ k, q.Eligible now k →
      ∀ qe ∈ Dict.getD q.queues k [],
        ∃ oldest ∈ Dict.getD q.queues scope [], oldest.receivedAt ≤ qe.receivedAt := by
  intro q scope hscope k hk qe hqe
  obtain ⟨hbefore, hflush, -⟩ := along_append.1 hok
  have hordered := (ordered_run dedupMode deadline htimes hbefore).expireInFlight hflush
  exact hordered.oldest_first hscope hk hqe

def otherChannel : Uuid := ⟨2⟩

def arriving (channelId : Uuid) (id receivedAt createdAt : Nat) : QueuedEvent :=
  ⟨channelId, .conversation channelId, ⟨⟨id⟩, ⟨0⟩, createdAt, 9, [], ""⟩, receivedAt, "mention",
    SessionScope.conversation_channelId channelId⟩

/-- Two mentions of one channel, with one of another received between them; the two become a batch
that is handed back undelivered. -/
def handedBack (firstCreatedAt : Nat) : List Call :=
  [.push .stored (arriving oneChannel 1 1 firstCreatedAt), .push .stored (arriving otherChannel 2 2 0),
    .push .stored (arriving oneChannel 3 3 50), .flushNext .stored 10,
    .requeuePreserveTimestamps .stored 0, .markComplete (.conversation oneChannel) 20]

theorem flush_serves_oldest_handedBack :
    let calls := handedBack 40
    (pushTimes calls).Pairwise (· ≤ ·) ∧
      Along step KeepsOrder (start .queue 100) (calls ++ [.flushNext .stored 30]) ∧
      let q := (runFrom step (start .queue 100) calls).queue.expireInFlight .stored 30
      q.nextScope .stored 30 = some (.conversation oneChannel) ∧
      ∀ scope, q.nextScope .stored 30 = some scope → ∀ k, q.Eligible 30 k →
        ∀ qe ∈ Dict.getD q.queues k [],
          ∃ oldest ∈ Dict.getD q.queues scope [], oldest.receivedAt ≤ qe.receivedAt :=
  ⟨by decide, by decide, by decide,
    flush_serves_oldest .queue 100 (handedBack 40) (by decide) .stored 30 (by decide)⟩

theorem older_event_waits :
    let calls := handedBack 60
    (pushTimes calls).Pairwise (· ≤ ·) ∧
      let q := (runFrom step (start .queue 100) calls).queue.expireInFlight .stored 30
      q.nextScope .stored 30 = some (.conversation otherChannel) ∧
      q.Eligible 30 (.conversation oneChannel) ∧
      arriving oneChannel 1 1 60 ∈ Dict.getD q.queues (.conversation oneChannel) [] ∧
      ∀ qe ∈ Dict.getD q.queues (.conversation otherChannel) [],
        (arriving oneChannel 1 1 60).receivedAt < qe.receivedAt := by
  refine ⟨by decide, by decide, ⟨by decide, by decide⟩, by decide, by decide⟩

end Harness

end Colony.Acp
