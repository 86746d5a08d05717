import Colony.Defs.Acp.Custody
import Colony.Defs.Acp.QueueStores

namespace Colony.Acp

open Colony.Data Colony.Core

section Totals

variable {q q' : EventQueue} {scope : SessionScope} {l : List QueuedEvent}

namespace EventQueue

theorem channelEventTotal_putBack_le (hq : q'.queues = Dict.putBack q.queues scope l)
    (hl : l.length ≤ (Dict.getD q.queues scope []).length) (channelId : Uuid) :
    q'.channelEventTotal channelId ≤ q.channelEventTotal channelId := by
  have hput := Dict.total_putBack
    (f := fun s (l : List QueuedEvent) => if s.channelId = channelId then l.length else 0)
    (fun _ => by simp) q.queues scope l
  rw [channelEventTotal_eq, channelEventTotal_eq, hq]
  split at hput <;> omega

theorem channelEventTotal_insert (hq : q'.queues = q.queues.insert scope l) (channelId : Uuid) :
    q'.channelEventTotal channelId +
        (if scope.channelId = channelId then (Dict.getD q.queues scope []).length else 0) =
      q.channelEventTotal channelId + if scope.channelId = channelId then l.length else 0 := by
  rw [channelEventTotal_eq, channelEventTotal_eq, hq]
  exact Dict.total_insert
    (f := fun s (l : List QueuedEvent) => if s.channelId = channelId then l.length else 0)
    (fun _ => by simp) q.queues scope l

theorem length_le_channelEventTotal (q : EventQueue) (scope : SessionScope) :
    (Dict.getD q.queues scope []).length ≤ q.channelEventTotal scope.channelId := by
  have herase := Dict.total_erase
    (f := fun s (l : List QueuedEvent) => if s.channelId = scope.channelId then l.length else 0)
    (fun _ => by simp) q.queues scope
  rw [channelEventTotal_eq]
  simp only [if_true] at herase
  omega

def Within (q : EventQueue) : Prop := ∀ channelId, q.channelEventTotal channelId ≤ MAX_PENDING_PER_CHANNEL

theorem Within.of_queues (h : q.Within) (hq : q'.queues = q.queues) : q'.Within := fun channelId => by
  rw [channelEventTotal_eq, hq, ← channelEventTotal_eq]
  exact h channelId

theorem Within.putBack (h : q.Within) (hq : q'.queues = Dict.putBack q.queues scope l)
    (hl : l.length ≤ (Dict.getD q.queues scope []).length) : q'.Within := fun channelId =>
  (channelEventTotal_putBack_le hq hl channelId).trans (h channelId)

theorem Within.insert (h : q.Within) (hq : q'.queues = q.queues.insert scope l) (orders : MapOrders)
    {channelId : Uuid} (hc : scope.channelId = channelId) :
    (q'.enforceChannelCap orders channelId).Within := by
  intro c
  by_cases heq : c = channelId
  · exact heq ▸ channelEventTotal_enforceChannelCap q' orders c
  · have hother : q'.channelEventTotal c ≤ MAX_PENDING_PER_CHANNEL := by
      have hins := channelEventTotal_insert hq c
      rw [if_neg fun hsc => heq (hsc.symm.trans hc), if_neg fun hsc => heq (hsc.symm.trans hc)] at hins
      have := h c
      omega
    refine enforceChannelCap_keeps (p := fun q => q.channelEventTotal c ≤ MAX_PENDING_PER_CHANNEL)
      (fun q scope hle => ?_) hother
    refine Nat.le_trans ?_ hle
    unfold evictFront
    cases hl : q.queues.lookup scope with
    | none => exact Nat.le_refl _
    | some queue =>
      refine channelEventTotal_putBack_le rfl ?_ c
      rw [Dict.getD_of_lookup hl, List.length_drop]
      omega

theorem Within.expireInFlight (h : q.Within) (orders : MapOrders) (now : Instant) :
    (q.expireInFlight orders now).Within := by
  rw [expireInFlight_eq]
  generalize q.expired orders now = expired
  induction expired generalizing q with
  | nil => exact h
  | cons scope expired ih =>
    refine ih ?_
    rw [expireScope, recover_eq]
    dsimp only
    cases q.withheldNativeSteer.lookup scope with
    | none => exact h
    | some entries => exact h.insert rfl orders rfl

theorem Within.flushNext (h : q.Within) (orders : MapOrders) (now : Instant) :
    (q.flushNext orders now).2.Within := by
  have h := h.expireInFlight orders now
  have hflushed := flushNext_flushed q orders now
  generalize q.flushNext orders now = out at hflushed ⊢
  cases hflushed with
  | queued scope hscope => exact h.putBack rfl (by simp)
  | cancelled scope hscope => exact h.of_queues rfl
  | nothing => exact h

theorem Within.requeue (h : q.Within) (orders : MapOrders) (batch : FlushBatch) (nanos : Nat)
    (now : Instant) : (q.requeue orders batch nanos now).2.Within := by
  unfold EventQueue.requeue
  dsimp only
  split
  · exact h
  · exact h.insert rfl orders batch.scope_channelId

theorem restoreCancelled_queues (q : EventQueue) (batch : FlushBatch) :
    (q.restoreCancelled batch).queues = q.queues := by
  unfold restoreCancelled
  dsimp only
  split <;> rfl

theorem Within.requeuePreserveTimestamps (h : q.Within) (orders : MapOrders) (batch : FlushBatch) :
    (q.requeuePreserveTimestamps orders batch).Within :=
  (h.of_queues (restoreCancelled_queues q batch)).insert rfl orders batch.scope_channelId

theorem Within.push (h : q.Within) (orders : MapOrders) (event : QueuedEvent) :
    (q.push orders event).2.Within := by
  unfold EventQueue.push
  split
  · exact h
  · exact h.insert rfl orders event.scope_channelId

theorem Within.releaseNativeSteer (h : q.Within) (orders : MapOrders) (scope : SessionScope)
    (eventId : String) : (q.releaseNativeSteer orders scope eventId).Within := by
  unfold EventQueue.releaseNativeSteer
  split
  · exact h
  · split
    · exact h
    · exact h.insert rfl orders rfl

theorem Within.markNativeSteerPending (h : q.Within) (scope : SessionScope) (eventId : String) :
    (q.markNativeSteerPending scope eventId).2.Within := by
  unfold EventQueue.markNativeSteerPending
  split
  · exact h
  next queue hl =>
    split
    · exact h
    · refine h.putBack rfl ?_
      rw [Dict.getD_of_lookup hl]
      exact List.eraseP_sublist.length_le

theorem Within.removeEvent (h : q.Within) (scope : SessionScope) (eventId : String) :
    (q.removeEvent scope eventId).Within := by
  cases hl : q.queues.lookup scope with
  | none => exact h.of_queues (by simp only [EventQueue.removeEvent, dropEvent, hl])
  | some queue =>
    have hq : (q.removeEvent scope eventId).queues = Dict.putBack q.queues scope
        (queue.filter fun qe => !decide (qe.event.id.toHex = eventId)) := by
      simp only [EventQueue.removeEvent, dropEvent, hl]
    refine h.putBack hq ?_
    rw [Dict.getD_of_lookup hl]
    exact List.filter_sublist.length_le

theorem Within.markComplete (h : q.Within) (scope : SessionScope) (now : Instant) :
    (q.markComplete scope now).Within := by
  unfold EventQueue.markComplete
  dsimp only
  split
  · split <;> exact h
  · exact h

theorem Within.extendInFlightDeadline (h : q.Within) (scope : SessionScope) (maxTurnSecs : Nat)
    (now : Instant) : (q.extendInFlightDeadline scope maxTurnSecs now).Within := by
  unfold EventQueue.extendInFlightDeadline
  split
  · exact h
  · dsimp only
    split <;> exact h

theorem Within.drainChannel (h : q.Within) (orders : MapOrders) (channelId : Uuid) :
    (q.drainChannel orders channelId).2.Within := by
  intro c
  have hretain := Dict.total_retain
    (fun s (l : List QueuedEvent) => if s.channelId = c then l.length else 0) q.queues
    fun s _ => !decide (s.channelId = channelId)
  have hq := h c
  rw [channelEventTotal_eq] at hq ⊢
  simp only [EventQueue.drainChannel]
  omega

end EventQueue

end Totals

def Mine (seen : SessionScope → BatchEvent → Prop) (scope : SessionScope) (qe : QueuedEvent) : Prop :=
  qe.scope = scope ∧ seen scope qe.toBatch

def Queued (seen : SessionScope → BatchEvent → Prop) (scope : SessionScope)
    (queue : List QueuedEvent) : Prop :=
  queue ≠ [] ∧ queue.length ≤ MAX_PENDING_PER_SCOPE ∧ ∀ qe ∈ queue, Mine seen scope qe

def Withheld (seen : SessionScope → BatchEvent → Prop) (scope : SessionScope)
    (entries : List QueuedEvent) : Prop :=
  entries ≠ [] ∧ ∀ qe ∈ entries, Mine seen scope qe

def Cancelled (seen : SessionScope → BatchEvent → Prop) (scope : SessionScope)
    (events : List BatchEvent) : Prop :=
  events ≠ [] ∧ ∀ be ∈ events, seen scope be

def FlushBatch.Given (seen : SessionScope → BatchEvent → Prop) (b : FlushBatch) : Prop :=
  b.events ≠ [] ∧ ∀ be ∈ b.events ++ b.cancelledEvents, seen b.scope be

structure EventQueue.Kept (seen : SessionScope → BatchEvent → Prop) (q : EventQueue) : Prop where
  queued : Dict.Each (Queued seen) q.queues
  withheld : Dict.Each (Withheld seen) q.withheldNativeSteer
  cancelled : Dict.Each (Cancelled seen) q.cancelledBatches

namespace EventQueue

variable {seen : SessionScope → BatchEvent → Prop} {q : EventQueue} {scope : SessionScope}

theorem queued_shrinks : Shrinks (Queued seen) := fun _ _ _ hsub hne h =>
  ⟨hne, hsub.length_le.trans h.2.1, fun qe hqe => h.2.2 qe (hsub.subset hqe)⟩

theorem Kept.mine (h : q.Kept seen) {qe : QueuedEvent} (hqe : qe ∈ Dict.getD q.queues scope []) :
    Mine seen scope qe :=
  (h.queued.getD (List.ne_nil_of_mem hqe)).2.2 qe hqe

theorem Kept.mine_withheld (h : q.Kept seen) {qe : QueuedEvent}
    (hqe : qe ∈ Dict.getD q.withheldNativeSteer scope []) : Mine seen scope qe :=
  (h.withheld.getD (List.ne_nil_of_mem hqe)).2 qe hqe

theorem Kept.seen_cancelled (h : q.Kept seen) {be : BatchEvent}
    (hbe : be ∈ Dict.getD q.cancelledBatches scope []) : seen scope be :=
  (h.cancelled.getD (List.ne_nil_of_mem hbe)).2 be hbe

theorem Kept.mono (h : q.Kept seen) {seen' : SessionScope → BatchEvent → Prop}
    (hseen : ∀ scope be, seen scope be → seen' scope be) : q.Kept seen' where
  queued := h.queued.imp fun k _ ⟨hne, hlen, hall⟩ =>
    ⟨hne, hlen, fun qe hqe => ⟨(hall qe hqe).1, hseen k _ (hall qe hqe).2⟩⟩
  withheld := h.withheld.imp fun k _ ⟨hne, hall⟩ =>
    ⟨hne, fun qe hqe => ⟨(hall qe hqe).1, hseen k _ (hall qe hqe).2⟩⟩
  cancelled := h.cancelled.imp fun k _ ⟨hne, hall⟩ => ⟨hne, fun be hbe => hseen k be (hall be hbe)⟩

theorem take_queued {events rest : List QueuedEvent} (hne : events ≠ [])
    (hevents : ∀ qe ∈ events, Mine seen scope qe) (hrest : ∀ qe ∈ rest, Mine seen scope qe) :
    Queued seen scope ((events ++ rest).take MAX_PENDING_PER_SCOPE) := by
  refine ⟨?_, List.length_take_le _ _, fun qe hqe => ?_⟩
  · cases events with
    | nil => exact absurd rfl hne
    | cons qe events => exact List.cons_ne_nil _ _
  · exact (List.mem_append.1 (List.mem_of_mem_take hqe)).elim (hevents qe) (hrest qe)

theorem Kept.enforceChannelCap (h : q.Kept seen) (orders : MapOrders) (channelId : Uuid) :
    (q.enforceChannelCap orders channelId).Kept seen where
  queued := queued_shrinks.enforceChannelCap h.queued channelId
  withheld := by
    rw [enforceChannelCap_withheld]
    exact h.withheld
  cancelled := by
    rw [enforceChannelCap_cancelled]
    exact h.cancelled

theorem Kept.restore (h : q.Kept seen) {events : List QueuedEvent} (hne : events ≠ [])
    (hevents : ∀ qe ∈ events, Mine seen scope qe) (orders : MapOrders) (channelId : Uuid) :
    ((q.pushFront scope events).enforceChannelCap orders channelId).Kept seen := by
  refine Kept.enforceChannelCap ?_ orders channelId
  refine ⟨h.queued.insert ?_, h.withheld, h.cancelled⟩
  exact take_queued hne hevents fun _ hqe => h.mine hqe

theorem Kept.expireInFlight (h : q.Kept seen) (orders : MapOrders) (now : Instant) :
    (q.expireInFlight orders now).Kept seen := by
  rw [expireInFlight_eq]
  generalize q.expired orders now = expired
  induction expired generalizing q with
  | nil => exact h
  | cons scope expired ih =>
    refine ih ?_
    rw [expireScope, recover_eq]
    dsimp only
    cases hl : q.withheldNativeSteer.lookup scope with
    | none => exact ⟨h.queued, h.withheld, h.cancelled⟩
    | some entries =>
      obtain ⟨hne, hall⟩ := h.withheld scope entries hl
      refine Kept.restore ?_ hne hall orders _
      exact ⟨h.queued, h.withheld.erase scope, h.cancelled⟩

theorem Kept.flushQueued (h : q.Kept seen) (scope : SessionScope) (now : Instant) :
    (q.flushQueued scope now).2.Kept seen where
  queued := queued_shrinks.putBack h.queued (List.drop_sublist _ _)
  withheld := h.withheld
  cancelled := h.cancelled.erase scope

theorem mem_flushQueued {now : Instant} {be : BatchEvent} :
    be ∈ (q.flushQueued scope now).1.events ↔
      ∃ qe ∈ (Dict.getD q.queues scope []).take MAX_BATCH_EVENTS, qe.toBatch = be := by
  simp only [EventQueue.flushQueued, List.mem_insertionSort, List.mem_map, ← List.take_eq_take_min]

theorem Kept.flushQueued_given (h : q.Kept seen) {orders : MapOrders} {now : Instant}
    (hscope : q.nextScope orders now = some scope) : (q.flushQueued scope now).1.Given seen := by
  obtain ⟨qe, queue, hl, -⟩ := of_nextScope hscope
  refine ⟨List.ne_nil_of_mem (mem_flushQueued.2 ⟨qe, ?_, rfl⟩), fun be hbe => ?_⟩
  · rw [Dict.getD_of_lookup hl]
    exact List.mem_cons_self
  · rcases List.mem_append.1 hbe with hbe | hbe
    · obtain ⟨qe, hqe, rfl⟩ := mem_flushQueued.1 hbe
      exact (h.mine (List.mem_of_mem_take hqe)).2
    · exact h.seen_cancelled hbe

theorem Kept.flushNext (h : q.Kept seen) (orders : MapOrders) (now : Instant) :
    (q.flushNext orders now).2.Kept seen ∧ ∀ b ∈ (q.flushNext orders now).1, b.Given seen := by
  have h := h.expireInFlight orders now
  have hflushed := flushNext_flushed q orders now
  generalize q.flushNext orders now = out at hflushed ⊢
  cases hflushed with
  | queued scope hscope =>
    exact ⟨h.flushQueued scope now, fun b hb => Option.some.inj hb ▸ h.flushQueued_given hscope⟩
  | cancelled scope hscope =>
    obtain ⟨events, hl, -⟩ := of_nextCancelledScope hscope
    obtain ⟨hne, hall⟩ := h.cancelled scope events hl
    refine ⟨⟨h.queued, h.withheld, h.cancelled.erase scope⟩, fun b hb => Option.some.inj hb ▸ ?_⟩
    have hevents : Dict.getD (q.expireInFlight orders now).cancelledBatches scope [] = events :=
      Dict.getD_of_lookup hl []
    simp only [flushCancelled, FlushBatch.Given, hevents, List.append_nil]
    exact ⟨hne, hall⟩
  | nothing => exact ⟨h, fun b hb => by cases hb⟩

theorem Kept.push (h : q.Kept seen) (orders : MapOrders) {event : QueuedEvent}
    (hevent : seen event.scope event.toBatch) : (q.push orders event).2.Kept seen := by
  unfold EventQueue.push
  split
  · exact h
  · refine Kept.enforceChannelCap ?_ orders _
    refine ⟨h.queued.insert ?_, h.withheld, h.cancelled⟩
    have hkept : ∀ qe ∈ Dict.getD q.queues event.scope [], Mine seen event.scope qe :=
      fun _ hqe => h.mine hqe
    have hlen : (Dict.getD q.queues event.scope []).length ≤ MAX_PENDING_PER_SCOPE := by
      by_cases hnil : Dict.getD q.queues event.scope [] = []
      · simp [hnil]
      · exact (h.queued.getD hnil).2.1
    refine ⟨by simp, ?_, fun qe hqe => ?_⟩
    · by_cases hfull : (Dict.getD q.queues event.scope []).length ≥ MAX_PENDING_PER_SCOPE
      · simp only [hfull, decide_true, if_true, List.length_append, List.length_drop,
          List.length_singleton]
        have : 0 < MAX_PENDING_PER_SCOPE := by decide
        omega
      · simp only [hfull, decide_false, Bool.false_eq_true, if_false, List.length_append,
          List.length_singleton]
        omega
    · rcases List.mem_append.1 hqe with hqe | hqe
      · refine hkept qe ?_
        split at hqe
        · exact List.mem_of_mem_drop hqe
        · exact hqe
      · obtain rfl := List.mem_singleton.1 hqe
        exact ⟨rfl, hevent⟩

theorem mine_toQueued {b : FlushBatch} (hb : b.Given seen) :
    ∀ qe ∈ b.events.map b.toQueued, Mine seen b.scope qe := by
  intro qe hqe
  obtain ⟨be, hbe, rfl⟩ := List.mem_map.1 hqe
  exact ⟨rfl, hb.2 be (List.mem_append_left _ hbe)⟩

theorem Kept.requeue (h : q.Kept seen) (orders : MapOrders) {b : FlushBatch} (hb : b.Given seen)
    (nanos : Nat) (now : Instant) : (q.requeue orders b nanos now).2.Kept seen := by
  unfold EventQueue.requeue
  dsimp only
  split
  · exact ⟨h.queued, h.withheld, h.cancelled⟩
  · have hrestored := Kept.restore (q := { q with
      retryCounts := q.retryCounts.insert b.scope (Dict.getD q.retryCounts b.scope 0 + 1)
      retryAfter := q.retryAfter.insert b.scope
        (now + retryDelay (Dict.getD q.retryCounts b.scope 0 + 1) nanos) })
      ⟨h.queued, h.withheld, h.cancelled⟩ (by simpa using hb.1) (mine_toQueued hb) orders b.channelId
    exact hrestored

theorem Kept.restoreCancelled (h : q.Kept seen) {b : FlushBatch} (hb : b.Given seen) :
    (q.restoreCancelled b).Kept seen := by
  unfold EventQueue.restoreCancelled
  dsimp only
  split
  · exact h
  next hne =>
    refine ⟨h.queued, h.withheld, h.cancelled.insert ⟨?_, fun be hbe => ?_⟩⟩
    · intro hnil
      exact hne (by rw [(List.append_eq_nil_iff.1 hnil).1]; rfl)
    · rcases List.mem_append.1 hbe with hbe | hbe
      · exact hb.2 be (List.mem_append_right _ hbe)
      · exact h.seen_cancelled hbe

theorem Kept.requeuePreserveTimestamps (h : q.Kept seen) (orders : MapOrders) {b : FlushBatch}
    (hb : b.Given seen) : (q.requeuePreserveTimestamps orders b).Kept seen :=
  (h.restoreCancelled hb).restore (by simpa using hb.1) (mine_toQueued hb) orders b.channelId

theorem Kept.requeueAsCancelled (h : q.Kept seen) {b : FlushBatch} (hb : b.Given seen)
    (reason : CancelReason) : (q.requeueAsCancelled b reason).Kept seen := by
  refine ⟨h.queued, h.withheld, h.cancelled.insert ⟨by simp [hb.1], fun be hbe => ?_⟩⟩
  simp only [List.append_assoc, List.mem_append] at hbe
  rcases hbe with hbe | hbe
  · exact h.seen_cancelled hbe
  · exact hb.2 be (List.mem_append.2 hbe.symm)

theorem Kept.markNativeSteerPending (h : q.Kept seen) (scope : SessionScope) (eventId : String) :
    (q.markNativeSteerPending scope eventId).2.Kept seen := by
  unfold EventQueue.markNativeSteerPending
  split
  · exact h
  next queue hl =>
    split
    · exact h
    next qe hfind =>
      refine ⟨queued_shrinks.putBack h.queued ?_, h.withheld.insert ⟨by simp, fun x hx => ?_⟩,
        h.cancelled⟩
      · rw [Dict.getD_of_lookup hl]
        exact List.eraseP_sublist
      · rcases List.mem_append.1 hx with hx | hx
        · exact h.mine_withheld hx
        · obtain rfl := List.mem_singleton.1 hx
          exact (h.queued scope queue hl).2.2 x (List.mem_of_find?_eq_some hfind)

theorem Kept.withheld_putBack (h : q.Kept seen) {entries rest : List QueuedEvent}
    (hl : q.withheldNativeSteer.lookup scope = some entries) (hrest : rest.Sublist entries) :
    Dict.Each (Withheld seen) (Dict.putBack q.withheldNativeSteer scope rest) :=
  h.withheld.putBack fun hne =>
    ⟨hne, fun qe hqe => (h.withheld scope entries hl).2 qe (hrest.subset hqe)⟩

theorem Kept.releaseNativeSteer (h : q.Kept seen) (orders : MapOrders) (scope : SessionScope)
    (eventId : String) : (q.releaseNativeSteer orders scope eventId).Kept seen := by
  unfold EventQueue.releaseNativeSteer
  split
  · exact h
  next entries hl =>
    split
    · exact h
    next qe hfind =>
      refine Kept.restore ?_ (List.cons_ne_nil _ _) (fun x hx => ?_) orders _
      · exact ⟨h.queued, h.withheld_putBack hl List.eraseP_sublist, h.cancelled⟩
      · obtain rfl := List.mem_singleton.1 hx
        exact (h.withheld scope entries hl).2 x (List.mem_of_find?_eq_some hfind)

theorem Kept.removeEvent (h : q.Kept seen) (scope : SessionScope) (eventId : String) :
    (q.removeEvent scope eventId).Kept seen := by
  refine ⟨?_, ?_, h.cancelled⟩ <;> simp only [EventQueue.removeEvent, dropEvent]
  · split
    · exact h.queued
    next queue hl =>
      exact queued_shrinks.putBack h.queued (Dict.getD_of_lookup hl [] ▸ List.filter_sublist)
  · split
    · exact h.withheld
    next entries hl => exact h.withheld_putBack hl List.filter_sublist

theorem Kept.drainChannel (h : q.Kept seen) (orders : MapOrders) (channelId : Uuid) :
    (q.drainChannel orders channelId).2.Kept seen :=
  ⟨h.queued.retain _, h.withheld.retain _, h.cancelled.retain _⟩

theorem Kept.extendInFlightDeadline (h : q.Kept seen) (scope : SessionScope) (maxTurnSecs : Nat)
    (now : Instant) : (q.extendInFlightDeadline scope maxTurnSecs now).Kept seen := by
  unfold EventQueue.extendInFlightDeadline
  split
  · exact h
  · dsimp only
    split
    · exact ⟨h.queued, h.withheld, h.cancelled⟩
    · exact h

theorem Kept.markComplete (h : q.Kept seen) (scope : SessionScope) (now : Instant) :
    (q.markComplete scope now).Kept seen := by
  unfold EventQueue.markComplete
  dsimp only
  split
  · split <;> exact ⟨h.queued, h.withheld, h.cancelled⟩
  · exact ⟨h.queued, h.withheld, h.cancelled⟩

end EventQueue

namespace Harness

def PushedIn (calls : List Call) (scope : SessionScope) (be : BatchEvent) : Prop :=
  ∃ orders qe, Call.push orders qe ∈ calls ∧ qe.scope = scope ∧ qe.toBatch = be

structure Stored (calls : List Call) (s : Harness) : Prop where
  kept : s.queue.Kept (PushedIn calls)
  within : s.queue.Within
  given : ∀ b ∈ s.held, b.Given (PushedIn calls)

variable {calls : List Call} {s : Harness}

theorem Stored.later (h : s.Stored calls) (call : Call) : s.Stored (calls ++ [call]) := by
  have hseen : ∀ scope be, PushedIn calls scope be → PushedIn (calls ++ [call]) scope be :=
    fun _ _ ⟨orders, qe, hmem, hqe⟩ => ⟨orders, qe, List.mem_append_left _ hmem, hqe⟩
  exact ⟨h.kept.mono hseen, h.within, fun b hb =>
    ⟨(h.given b hb).1, fun be hbe => hseen _ be ((h.given b hb).2 be hbe)⟩⟩

theorem Stored.giveBack (h : s.Stored calls) (i : Nat)
    {f : FlushBatch → EventQueue × List (EventId × Exit)}
    (hf : ∀ b, b.Given (PushedIn calls) → (f b).1.Kept (PushedIn calls) ∧ (f b).1.Within) :
    (s.giveBack i f).Stored calls := by
  unfold Harness.giveBack
  split
  · exact h
  next b hb =>
    obtain ⟨hkept, hwithin⟩ := hf b (h.given b (List.mem_of_getElem? hb))
    exact ⟨hkept, hwithin, fun b' hb' => h.given b' (List.mem_of_mem_eraseIdx hb')⟩

theorem Stored.step (h : s.Stored calls) (call : Call) : (s.step call).Stored (calls ++ [call]) := by
  have h := h.later call
  cases call with
  | push orders event =>
    refine ⟨h.kept.push orders ⟨orders, event, ?_, rfl, rfl⟩, h.within.push orders event, h.given⟩
    exact List.mem_append_right _ List.mem_cons_self
  | flushNext orders now =>
    obtain ⟨hkept, hgiven⟩ := h.kept.flushNext orders now
    refine ⟨hkept, h.within.flushNext orders now, fun b hb => ?_⟩
    rcases List.mem_append.1 hb with hb | hb
    · exact h.given b hb
    · exact hgiven b (Option.mem_toList.1 hb)
  | markComplete scope now =>
    exact ⟨h.kept.markComplete scope now, h.within.markComplete scope now, h.given⟩
  | complete i now =>
    rw [Harness.step]
    refine h.giveBack i fun b _ => ?_
    exact ⟨h.kept.markComplete b.scope now, h.within.markComplete b.scope now⟩
  | requeue orders i nanos now =>
    rw [Harness.step]
    refine h.giveBack i fun b hb => ?_
    exact ⟨h.kept.requeue orders hb nanos now, h.within.requeue orders b nanos now⟩
  | requeuePreserveTimestamps orders i =>
    rw [Harness.step]
    refine h.giveBack i fun b hb => ?_
    exact ⟨h.kept.requeuePreserveTimestamps orders hb, h.within.requeuePreserveTimestamps orders b⟩
  | requeueAsCancelled i reason =>
    rw [Harness.step]
    refine h.giveBack i fun b hb => ?_
    exact ⟨h.kept.requeueAsCancelled hb reason, h.within.of_queues rfl⟩
  | markNativeSteerPending scope eventId =>
    exact ⟨h.kept.markNativeSteerPending scope eventId,
      h.within.markNativeSteerPending scope eventId, h.given⟩
  | releaseNativeSteer orders scope eventId =>
    exact ⟨h.kept.releaseNativeSteer orders scope eventId,
      h.within.releaseNativeSteer orders scope eventId, h.given⟩
  | removeEvent scope eventId =>
    exact ⟨h.kept.removeEvent scope eventId, h.within.removeEvent scope eventId, h.given⟩
  | drainChannel orders channelId =>
    exact ⟨h.kept.drainChannel orders channelId, h.within.drainChannel orders channelId, h.given⟩
  | hasFlushableWork orders now =>
    exact ⟨h.kept.expireInFlight orders now, h.within.expireInFlight orders now, h.given⟩
  | compactExpiredState now =>
    exact ⟨⟨h.kept.queued, h.kept.withheld, h.kept.cancelled⟩, h.within.of_queues rfl, h.given⟩
  | extendInFlightDeadline scope maxTurnSecs now =>
    exact ⟨h.kept.extendInFlightDeadline scope maxTurnSecs now,
      h.within.extendInFlightDeadline scope maxTurnSecs now, h.given⟩

theorem stored_start (dedupMode : DedupMode) (deadline : Duration) :
    (start dedupMode deadline).Stored [] where
  kept := ⟨Dict.each_empty, Dict.each_empty, Dict.each_empty⟩
  within _ := Nat.zero_le _
  given b hb := by cases hb

theorem stored_run (dedupMode : DedupMode) (deadline : Duration) (calls : List Call) :
    (runFrom step (start dedupMode deadline) calls).Stored calls :=
  runFrom_history (p := Stored) (stored_start dedupMode deadline) (fun _ call h => h.step call) calls

instance : Std.Total fun a b : BatchEvent => a.event.createdAt ≤ b.event.createdAt :=
  ⟨fun _ _ => Nat.le_total _ _⟩

instance : IsTrans BatchEvent fun a b => a.event.createdAt ≤ b.event.createdAt :=
  ⟨fun _ _ _ => Nat.le_trans⟩

/-- After every run of calls: the depth caps hold, every entry of the three tables is of the scope
it is stored under, none of them is empty, and what a flush drains from a queue is between one
event and a full batch of that scope, in the order the events were created. -/
theorem queue_invariant (dedupMode : DedupMode) (deadline : Duration) (calls : List Call) :
    let q := (runFrom step (start dedupMode deadline) calls).queue
    (∀ scope queue, q.queues.lookup scope = some queue →
      queue ≠ [] ∧ queue.length ≤ MAX_PENDING_PER_SCOPE ∧
        ∀ qe ∈ queue, qe.scope = scope ∧ PushedIn calls scope qe.toBatch) ∧
    (∀ channelId, q.channelEventTotal channelId ≤ MAX_PENDING_PER_CHANNEL) ∧
    (∀ scope entries, q.withheldNativeSteer.lookup scope = some entries →
      ∀ qe ∈ entries, qe.scope = scope ∧ PushedIn calls scope qe.toBatch) ∧
    (∀ scope events, q.cancelledBatches.lookup scope = some events →
      ∀ be ∈ events, PushedIn calls scope be) ∧
    ∀ orders now scope, (q.expireInFlight orders now).nextScope orders now = some scope →
      ∃ batch, (q.flushNext orders now).1 = some batch ∧ batch.scope = scope ∧
        1 ≤ batch.events.length ∧ batch.events.length ≤ MAX_BATCH_EVENTS ∧
        (∀ be ∈ batch.events, PushedIn calls scope be) ∧
        batch.events.Pairwise fun a b => a.event.createdAt ≤ b.event.createdAt := by
  intro q
  have h := stored_run dedupMode deadline calls
  refine ⟨h.kept.queued, h.within, fun scope entries hl => (h.kept.withheld scope entries hl).2,
    fun scope events hl => (h.kept.cancelled scope events hl).2, fun orders now scope hscope => ?_⟩
  obtain ⟨hne, hall⟩ := (h.kept.expireInFlight orders now).flushQueued_given hscope
  refine ⟨((q.expireInFlight orders now).flushQueued scope now).1, ?_, rfl,
    List.length_pos_iff.2 hne, ?_, fun be hbe => hall be (List.mem_append_left _ hbe),
    List.pairwise_insertionSort _ _⟩
  · simp only [EventQueue.flushNext, hscope]
  · simp only [EventQueue.flushQueued, List.length_insertionSort, List.length_map, List.length_take]
    omega

end Harness

end Colony.Acp
