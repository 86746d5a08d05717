import Colony.Defs.Acp.Flights
import Colony.Defs.Acp.QueueInvariant

namespace Colony.Acp

open Colony.Data Colony.Core

namespace EventQueue

def hasUndispatchedWork (q : EventQueue) : Bool :=
  q.queues.entries.any (fun e => !e.2.isEmpty && !decide (e.1 ∈ q.inFlightScopes)) ||
    q.cancelledBatches.entries.any (fun e => !decide (e.1 ∈ q.inFlightScopes)) ||
    q.withheldNativeSteer.entries.any (fun e => !e.2.isEmpty && !decide (e.1 ∈ q.inFlightScopes))

def hasInFlight (q : EventQueue) : Bool := !decide (q.inFlightScopes = ∅)

variable {q : EventQueue} {orders : MapOrders} {now : Instant}

theorem nextScope_isSome (orders : MapOrders) :
    (q.nextScope orders now).isSome = q.queues.entries.any (q.flushable now) := by
  rw [Bool.eq_iff_iff, nextScope, Option.isSome_map, ← Option.ne_none_iff_isSome, Ne,
    List.argmin_eq_none, List.filter_eq_nil_iff]
  simp

theorem nextCancelledScope_isSome (orders : MapOrders) : (q.nextCancelledScope orders).isSome =
    q.cancelledBatches.entries.any fun e => !decide (e.1 ∈ q.inFlightScopes) := by
  rw [Bool.eq_iff_iff, nextCancelledScope, Option.isSome_map, List.find?_isSome]
  simp

theorem flushNext_isSome : (q.flushNext orders now).1.isSome = (q.hasFlushableWork orders now).1 := by
  simp only [hasFlushableWork, ← nextScope_isSome orders, ← nextCancelledScope_isSome orders,
    flushNext]
  cases (q.expireInFlight orders now).nextScope orders now with
  | some scope => rfl
  | none => cases (q.expireInFlight orders now).nextCancelledScope orders <;> rfl

theorem expireInFlight_again (orders' : MapOrders) :
    (q.expireInFlight orders now).expireInFlight orders' now = q.expireInFlight orders now := by
  have hnone : (q.expireInFlight orders now).expired orders' now = [] := by
    rw [List.eq_nil_iff_forall_not_mem]
    intro scope hscope
    obtain ⟨t, ht, hle⟩ := mem_expired.1 hscope
    have hdeadlines := congrArg InFlight.deadlines (inFlight_expireInFlight q orders now)
    rw [show (q.expireInFlight orders now).inFlightDeadlines = _ from hdeadlines,
      InFlight.lookup_releaseAll] at ht
    split at ht
    · cases ht
    next hkept => exact hkept (mem_expired.2 ⟨t, ht, hle⟩)
  rw [expireInFlight_eq, hnone]
  rfl

/-- A flush at the instant of the question hands out a batch exactly if the answer was yes, in
whatever order the maps are walked. -/
theorem hasFlushableWork_flushNext (q : EventQueue) (orders orders' : MapOrders) (now : Instant) :
    ((q.hasFlushableWork orders now).2.flushNext orders' now).1.isSome =
      (q.hasFlushableWork orders now).1 := by
  rw [flushNext_isSome]
  simp only [hasFlushableWork, expireInFlight_again]

end EventQueue

def inactivityExpired (lastActivity now : Instant) (bound : Duration) (turnInFlight : Bool) : Bool :=
  !decide (bound = 0) && !turnInFlight && decide (bound ≤ now - lastActivity)

def idlePoolSleepDue (poolReady : Bool) (lastActivity now : Instant) (bound : Duration)
    (turnInFlight promptTasksInFlight workQueued wakeOrRespawnInFlight : Bool) : Bool :=
  poolReady && !workQueued && !promptTasksInFlight && !wakeOrRespawnInFlight &&
    inactivityExpired lastActivity now bound turnInFlight

theorem EventQueue.Kept.empty {q : EventQueue} {seen : SessionScope → BatchEvent → Prop}
    (h : q.Kept seen) (hflight : q.hasInFlight = false) (hwork : q.hasUndispatchedWork = false) :
    q.queues = ∅ ∧ q.withheldNativeSteer = ∅ ∧ q.cancelledBatches = ∅ := by
  have hfree : q.inFlightScopes = ∅ := by simpa [hasInFlight] using hflight
  simp only [hasUndispatchedWork, hfree, Bool.or_eq_false_iff, List.any_eq_false] at hwork
  obtain ⟨⟨hqueued, hcancelled⟩, hwithheld⟩ := hwork
  refine ⟨AList.ext ?_, AList.ext ?_, AList.ext ?_⟩ <;>
    refine List.eq_nil_iff_forall_not_mem.2 fun e he => ?_
  · exact (h.queued e.1 e.2 ((Dict.mem_lookup_entries _ _ _).2 he)).1 (by simpa using hqueued e he)
  · exact (h.withheld e.1 e.2 ((Dict.mem_lookup_entries _ _ _).2 he)).1 (by simpa using hwithheld e he)
  · simpa using hcancelled e he

namespace Harness

/-- When the idle pool may sleep, every event still there is in a batch handed out, no flush at any
time hands out another, and what is handed out from then on was pushed from then on. -/
theorem sleep_strands_nothing (dedupMode : DedupMode) (deadline : Duration) (calls : List Call)
    {lastActivity now : Instant} {bound : Duration} {poolReady heartbeat tasks wakes : Bool} :
    let s := runFrom step (start dedupMode deadline) calls
    idlePoolSleepDue poolReady lastActivity now bound (s.queue.hasInFlight || heartbeat) tasks
      s.queue.hasUndispatchedWork wakes = true →
    s.places = s.held.flatMap FlushBatch.ids ∧
    (∀ orders now', (s.queue.flushNext orders now').1 = none) ∧
    (s.held = [] → ∀ later, ∀ b ∈ (runFrom step s later).held,
      ∀ be ∈ b.events ++ b.cancelledEvents, PushedIn later b.scope be) := by
  intro s hdue
  have hstored := stored_run dedupMode deadline calls
  simp only [idlePoolSleepDue, inactivityExpired, Bool.and_eq_true, Bool.not_eq_true',
    Bool.or_eq_false_iff] at hdue
  obtain ⟨⟨⟨⟨-, hwork⟩, -⟩, -⟩, ⟨-, hflight, -⟩, -⟩ := hdue
  obtain ⟨hqueues, hwithheld, hcancelled⟩ := hstored.kept.empty hflight hwork
  have hkept : s.queue.Kept (PushedIn []) :=
    ⟨hqueues ▸ Dict.each_empty, hwithheld ▸ Dict.each_empty, hcancelled ▸ Dict.each_empty⟩
  refine ⟨?_, fun orders now' => ?_, fun hheld later => ?_⟩
  · rw [places, hqueues, hwithheld, hcancelled]
    rfl
  · rw [Option.eq_none_iff_forall_ne_some]
    intro b hb
    obtain ⟨hne, hall⟩ := (hkept.flushNext orders now').2 b hb
    obtain ⟨be, hbe⟩ := List.exists_mem_of_ne_nil _ hne
    obtain ⟨_, _, hmem, _⟩ := hall be (List.mem_append_left _ hbe)
    cases hmem
  · have hnothing : s.Stored [] := ⟨hkept, hstored.within, by simp [hheld]⟩
    have hlater := runFrom_history (p := Stored) hnothing (fun _ call h => h.step call) later
    exact fun b hb => (hlater.given b hb).2

theorem sleep_strands_nothing_idle :
    let s := runFrom step (start .queue 100)
      [.push .stored (mention 1), .flushNext .stored 10, .complete 0 20]
    idlePoolSleepDue true 20 80 60 s.queue.hasInFlight false s.queue.hasUndispatchedWork false = true ∧
      s.places = [] := by
  intro s
  have hdue : idlePoolSleepDue true 20 80 60 (s.queue.hasInFlight || false) false
      s.queue.hasUndispatchedWork false = true := by decide
  exact ⟨hdue, (sleep_strands_nothing .queue 100 _ hdue).1⟩

end Harness

end Colony.Acp
