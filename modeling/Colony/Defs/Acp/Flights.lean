import Colony.Defs.Acp.Custody
import Colony.Defs.Acp.QueueStores

namespace Colony.Acp

open Colony.Data Colony.Core

structure InFlight where
  scopes : Finset SessionScope
  deadlines : Dict SessionScope Instant
  batchSizes : Dict SessionScope Nat
  span : Duration

namespace InFlight

variable {t : InFlight}

def start (t : InFlight) (scope : SessionScope) (now : Instant) (size : Nat) : InFlight :=
  { t with
    scopes := insert scope t.scopes
    deadlines := t.deadlines.insert scope (now + t.span)
    batchSizes := t.batchSizes.insert scope size }

def release (t : InFlight) (scope : SessionScope) : InFlight :=
  { t with
    scopes := t.scopes.erase scope
    deadlines := t.deadlines.erase scope
    batchSizes := t.batchSizes.erase scope }

def SameKeys (t : InFlight) : Prop :=
  ∀ scope, (scope ∈ t.scopes ↔ (t.deadlines.lookup scope).isSome = true) ∧
    (scope ∈ t.scopes ↔ (t.batchSizes.lookup scope).isSome = true)

theorem SameKeys.start (h : t.SameKeys) (scope : SessionScope) (now : Instant) (size : Nat) :
    (t.start scope now size).SameKeys := by
  intro k
  simp only [InFlight.start, Finset.mem_insert, Dict.lookup_insert_if]
  by_cases hk : k = scope
  · simp [hk]
  · simpa [hk] using h k

theorem SameKeys.release (h : t.SameKeys) (scope : SessionScope) : (t.release scope).SameKeys := by
  intro k
  simp only [InFlight.release, Finset.mem_erase, Dict.lookup_erase_if]
  by_cases hk : k = scope
  · simp [hk]
  · simpa [hk] using h k

theorem SameKeys.releaseAll (h : t.SameKeys) (scopes : List SessionScope) :
    (scopes.foldl InFlight.release t).SameKeys := by
  induction scopes generalizing t with
  | nil => exact h
  | cons scope scopes ih => exact ih (h.release scope)

theorem releaseAll_span (scopes : List SessionScope) : (scopes.foldl release t).span = t.span := by
  induction scopes generalizing t with
  | nil => rfl
  | cons scope scopes ih => exact ih

theorem lookup_releaseAll (scopes : List SessionScope) (k : SessionScope) :
    (scopes.foldl release t).deadlines.lookup k =
      if k ∈ scopes then none else t.deadlines.lookup k := by
  induction scopes generalizing t with
  | nil => rfl
  | cons scope scopes ih =>
    rw [List.foldl_cons, ih]
    simp only [release, Dict.lookup_erase_if]
    by_cases hk : k = scope <;> simp [hk]

end InFlight

namespace EventQueue

def inFlight (q : EventQueue) : InFlight :=
  ⟨q.inFlightScopes, q.inFlightDeadlines, q.inFlightBatchSizes, q.inFlightDeadline⟩

section Tables

variable (q : EventQueue) (orders : MapOrders)

@[simp] theorem inFlight_enforceChannelCap (channelId : Uuid) :
    (q.enforceChannelCap orders channelId).inFlight = q.inFlight := by
  rw [enforceChannelCap_frame]
  rfl

theorem inFlight_push (event : QueuedEvent) : (q.push orders event).2.inFlight = q.inFlight := by
  unfold push
  split
  · rfl
  · exact inFlight_enforceChannelCap _ orders event.channelId

theorem inFlight_requeue (batch : FlushBatch) (nanos : Nat) (now : Instant) :
    (q.requeue orders batch nanos now).2.inFlight = q.inFlight := by
  unfold requeue
  dsimp only
  split
  · rfl
  · exact inFlight_enforceChannelCap _ orders batch.channelId

theorem inFlight_requeuePreserveTimestamps (batch : FlushBatch) :
    (q.requeuePreserveTimestamps orders batch).inFlight = q.inFlight := by
  rw [requeuePreserveTimestamps, inFlight_enforceChannelCap, restoreCancelled]
  split <;> rfl

theorem inFlight_markNativeSteerPending (scope : SessionScope) (eventId : String) :
    (q.markNativeSteerPending scope eventId).2.inFlight = q.inFlight := by
  unfold markNativeSteerPending
  split
  · rfl
  · split <;> rfl

theorem inFlight_releaseNativeSteer (scope : SessionScope) (eventId : String) :
    (q.releaseNativeSteer orders scope eventId).inFlight = q.inFlight := by
  unfold releaseNativeSteer
  split
  · rfl
  · split
    · rfl
    · exact inFlight_enforceChannelCap _ orders scope.channelId

theorem inFlight_expireScope (scope : SessionScope) :
    (expireScope orders q scope).inFlight = q.inFlight.release scope := by
  rw [expireScope, recover_eq]
  split
  · rfl
  · exact inFlight_enforceChannelCap _ orders scope.channelId

theorem inFlight_expireInFlight (now : Instant) :
    (q.expireInFlight orders now).inFlight =
      (q.expired orders now).foldl InFlight.release q.inFlight := by
  rw [expireInFlight_eq]
  generalize q.expired orders now = expired
  induction expired generalizing q with
  | nil => rfl
  | cons scope expired ih => rw [List.foldl_cons, List.foldl_cons, ih, inFlight_expireScope]

theorem inFlight_markComplete (scope : SessionScope) (now : Instant) :
    (q.markComplete scope now).inFlight = q.inFlight.release scope := by
  unfold markComplete
  dsimp only
  split
  · split <;> rfl
  · rfl

theorem inFlight_flushNext (now : Instant) :
    let before := (q.expired orders now).foldl InFlight.release q.inFlight
    let out := q.flushNext orders now
    (out.1 = none ∧ out.2.inFlight = before) ∨
      ∃ batch size, out.1 = some batch ∧ batch.scope ∉ before.scopes ∧
        out.2.inFlight = before.start batch.scope now size := by
  have hflushed := flushNext_flushed q orders now
  have hexpired := inFlight_expireInFlight q orders now
  generalize q.flushNext orders now = out at hflushed ⊢
  intro before
  rw [← show (q.expireInFlight orders now).inFlight = before from hexpired]
  cases hflushed with
  | queued scope hscope =>
    obtain ⟨-, -, -, heligible, -⟩ := of_nextScope hscope
    exact .inr ⟨_, _, rfl, heligible.1, rfl⟩
  | cancelled scope hscope =>
    obtain ⟨-, -, hfree⟩ := of_nextCancelledScope hscope
    exact .inr ⟨_, _, rfl, hfree, rfl⟩
  | nothing => exact .inl ⟨rfl, rfl⟩

end Tables

end EventQueue

structure Flight where
  batch : Nat
  scope : SessionScope
  deadline : Instant
  deriving DecidableEq

/-- The queue, the scopes of the batches handed out so far, and the batches that were not marked
complete and whose deadline had not passed when the queue last looked. -/
structure Flights where
  queue : EventQueue
  issued : List SessionScope
  running : List Flight

inductive FlightCall
  | flushNext (orders : MapOrders) (now : Instant)
  | hasFlushableWork (orders : MapOrders) (now : Instant)
  | markComplete (batch : Nat) (now : Instant)
  | extendInFlightDeadline (scope : SessionScope) (maxTurnSecs : Nat) (now : Instant)
  | push (orders : MapOrders) (event : QueuedEvent)
  | requeue (orders : MapOrders) (batch : FlushBatch) (nanos : Nat) (now : Instant)
  | requeuePreserveTimestamps (orders : MapOrders) (batch : FlushBatch)
  | requeueAsCancelled (batch : FlushBatch) (reason : CancelReason)
  | markNativeSteerPending (scope : SessionScope) (eventId : String)
  | releaseNativeSteer (orders : MapOrders) (scope : SessionScope) (eventId : String)
  | removeEvent (scope : SessionScope) (eventId : String)
  | drainChannel (orders : MapOrders) (channelId : Uuid)
  | compactExpiredState (now : Instant)

namespace Flights

def start (dedupMode : DedupMode) (inFlightDeadline : Duration) : Flights :=
  ⟨{ EventQueue.new dedupMode with inFlightDeadline := inFlightDeadline }, [], []⟩

def unexpired (now : Instant) (running : List Flight) : List Flight :=
  running.filter fun flight => decide (now < flight.deadline)

def handOut (s : Flights) (now : Instant) : Option FlushBatch → Flights
  | none => s
  | some batch =>
    { s with
      issued := s.issued ++ [batch.scope]
      running := s.running ++ [⟨s.issued.length, batch.scope, now + s.queue.inFlightDeadline⟩] }

def extend (scope : SessionScope) (deadline : Instant) (flight : Flight) : Flight :=
  if flight.scope = scope then { flight with deadline := max flight.deadline deadline } else flight

def step (s : Flights) : FlightCall → Flights
  | .flushNext orders now =>
    let (batch, queue) := s.queue.flushNext orders now
    { s with queue := queue, running := unexpired now s.running }.handOut now batch
  | .hasFlushableWork orders now =>
    { s with
      queue := (s.queue.hasFlushableWork orders now).2
      running := unexpired now s.running }
  | .markComplete batch now => match s.issued[batch]? with
    | none => s
    | some scope =>
      { s with
        queue := s.queue.markComplete scope now
        running := s.running.filter fun flight => decide (flight.batch ≠ batch) }
  | .extendInFlightDeadline scope maxTurnSecs now =>
    { s with
      queue := s.queue.extendInFlightDeadline scope maxTurnSecs now
      running := if (s.queue.inFlightDeadlines.lookup scope).isSome then
          s.running.map
            (extend scope (now + Duration.fromSecs (maxTurnSecs + IN_FLIGHT_DEADLINE_BUFFER_SECS)))
        else s.running }
  | .push orders event => { s with queue := (s.queue.push orders event).2 }
  | .requeue orders batch nanos now => { s with queue := (s.queue.requeue orders batch nanos now).2 }
  | .requeuePreserveTimestamps orders batch =>
    { s with queue := s.queue.requeuePreserveTimestamps orders batch }
  | .requeueAsCancelled batch reason => { s with queue := s.queue.requeueAsCancelled batch reason }
  | .markNativeSteerPending scope eventId =>
    { s with queue := (s.queue.markNativeSteerPending scope eventId).2 }
  | .releaseNativeSteer orders scope eventId =>
    { s with queue := s.queue.releaseNativeSteer orders scope eventId }
  | .removeEvent scope eventId => { s with queue := s.queue.removeEvent scope eventId }
  | .drainChannel orders channelId => { s with queue := (s.queue.drainChannel orders channelId).2 }
  | .compactExpiredState now => { s with queue := s.queue.compactExpiredState now }

variable {s : Flights}

inductive Stepped (s : Flights) : FlightCall → Flights → Prop
  | quiet {call q} (htables : q.inFlight = s.queue.inFlight) : Stepped s call { s with queue := q }
  | looked {call q} (orders : MapOrders) (now : Instant)
      (htables : q.inFlight = (s.queue.expired orders now).foldl InFlight.release s.queue.inFlight) :
      Stepped s call { s with queue := q, running := unexpired now s.running }
  | handed {call q} (orders : MapOrders) (now : Instant) (scope : SessionScope) (size : Nat)
      (hfree : scope ∉
        ((s.queue.expired orders now).foldl InFlight.release s.queue.inFlight).scopes)
      (htables : q.inFlight =
        ((s.queue.expired orders now).foldl InFlight.release s.queue.inFlight).start scope now size) :
      Stepped s call
        ⟨q, s.issued ++ [scope], unexpired now s.running ++
          [⟨s.issued.length, scope, now + s.queue.inFlightDeadline⟩]⟩
  | completed {q batch now} (scope : SessionScope) (hissued : s.issued[batch]? = some scope)
      (htables : q.inFlight = s.queue.inFlight.release scope) :
      Stepped s (.markComplete batch now)
        { s with queue := q, running := s.running.filter fun flight => decide (flight.batch ≠ batch) }
  | extended {call q} (scope : SessionScope) (current deadline : Instant)
      (hcurrent : s.queue.inFlight.deadlines.lookup scope = some current)
      (hscopes : q.inFlight.scopes = s.queue.inFlight.scopes)
      (hsizes : q.inFlight.batchSizes = s.queue.inFlight.batchSizes)
      (hdeadlines : ∀ k, q.inFlight.deadlines.lookup k =
        if k = scope then some (max current deadline) else s.queue.inFlight.deadlines.lookup k) :
      Stepped s call { s with queue := q, running := s.running.map (extend scope deadline) }

theorem flushNext_stepped (s : Flights) (orders : MapOrders) (now : Instant) :
    Stepped s (.flushNext orders now) (s.step (.flushNext orders now)) := by
  simp only [step]
  rcases EventQueue.inFlight_flushNext s.queue orders now with
    ⟨hnone, htables⟩ | ⟨batch, size, hsome, hfree, htables⟩
  · rw [hnone]
    exact .looked orders now htables
  · have hspan : (s.queue.flushNext orders now).2.inFlightDeadline = s.queue.inFlightDeadline :=
      (congrArg InFlight.span htables).trans (InFlight.releaseAll_span _)
    rw [hsome, handOut, hspan]
    exact .handed orders now batch.scope size hfree htables

theorem extend_stepped (s : Flights) (scope : SessionScope) (maxTurnSecs : Nat) (now : Instant) :
    Stepped s (.extendInFlightDeadline scope maxTurnSecs now)
      (s.step (.extendInFlightDeadline scope maxTurnSecs now)) := by
  simp only [step, EventQueue.extendInFlightDeadline]
  cases hl : s.queue.inFlightDeadlines.lookup scope with
  | none => exact .quiet rfl
  | some current =>
    dsimp only [Option.isSome]
    split
    next hlater =>
      refine .extended scope current _ hl rfl rfl fun k => ?_
      rw [Nat.max_eq_right (Nat.le_of_lt hlater)]
      exact Dict.lookup_insert_if ..
    next hlater =>
      refine .extended scope current _ hl rfl rfl fun k => ?_
      rw [Nat.max_eq_left (Nat.le_of_not_lt hlater)]
      split
      next hk => exact hk ▸ hl
      next => rfl

theorem step_stepped (s : Flights) (call : FlightCall) : Stepped s call (s.step call) := by
  cases call with
  | flushNext orders now => exact flushNext_stepped s orders now
  | hasFlushableWork orders now =>
    exact .looked orders now (EventQueue.inFlight_expireInFlight s.queue orders now)
  | markComplete batch now =>
    simp only [step]
    split
    · exact .quiet rfl
    next scope hissued =>
      exact .completed scope hissued (EventQueue.inFlight_markComplete s.queue scope now)
  | extendInFlightDeadline scope maxTurnSecs now => exact extend_stepped s scope maxTurnSecs now
  | push orders event => exact .quiet (EventQueue.inFlight_push s.queue orders event)
  | requeue orders batch nanos now =>
    exact .quiet (EventQueue.inFlight_requeue s.queue orders batch nanos now)
  | requeuePreserveTimestamps orders batch =>
    exact .quiet (EventQueue.inFlight_requeuePreserveTimestamps s.queue orders batch)
  | requeueAsCancelled batch reason => exact .quiet rfl
  | markNativeSteerPending scope eventId =>
    exact .quiet (EventQueue.inFlight_markNativeSteerPending s.queue scope eventId)
  | releaseNativeSteer orders scope eventId =>
    exact .quiet (EventQueue.inFlight_releaseNativeSteer s.queue orders scope eventId)
  | removeEvent scope eventId => exact .quiet rfl
  | drainChannel orders channelId => exact .quiet rfl
  | compactExpiredState now => exact .quiet rfl

theorem sameKeys_step (h : s.queue.inFlight.SameKeys) (call : FlightCall) :
    (s.step call).queue.inFlight.SameKeys := by
  have hstepped := step_stepped s call
  generalize s.step call = s' at hstepped
  cases hstepped with
  | quiet htables => exact htables ▸ h
  | looked orders now htables => exact htables ▸ h.releaseAll _
  | handed orders now scope size hfree htables => exact htables ▸ (h.releaseAll _).start scope now size
  | completed scope hissued htables => exact htables ▸ h.release scope
  | extended scope current deadline hcurrent hscopes hsizes hdeadlines =>
    intro k
    rw [hscopes, hsizes, hdeadlines]
    refine ⟨(h k).1.trans ?_, (h k).2⟩
    split
    next hk => rw [hk, hcurrent]; rfl
    next => rfl

structure Single (s : Flights) : Prop where
  sameKeys : s.queue.inFlight.SameKeys
  tracked : ∀ flight ∈ s.running,
    s.queue.inFlight.deadlines.lookup flight.scope = some flight.deadline
  apart : s.running.Pairwise fun f g => f.scope ≠ g.scope

theorem Single.inFlight (h : s.Single) {flight : Flight} (hf : flight ∈ s.running) :
    flight.scope ∈ s.queue.inFlight.scopes :=
  (h.sameKeys flight.scope).1.2 (by rw [h.tracked flight hf]; rfl)

theorem Single.tracked_unexpired (h : s.Single) {orders : MapOrders} {now : Instant}
    {flight : Flight} (hf : flight ∈ unexpired now s.running) :
    ((s.queue.expired orders now).foldl InFlight.release s.queue.inFlight).deadlines.lookup
      flight.scope = some flight.deadline := by
  obtain ⟨hmem, hnow⟩ := List.mem_filter.1 hf
  have htracked := h.tracked flight hmem
  rw [InFlight.lookup_releaseAll, if_neg, htracked]
  rw [EventQueue.mem_expired]
  rintro ⟨t, ht, hle⟩
  obtain rfl : t = flight.deadline := Option.some.inj (Option.mem_def.1 ht ▸ htracked)
  exact Nat.not_lt.2 hle (of_decide_eq_true hnow)

def ownBatch (s : Flights) : FlightCall → Bool
  | .markComplete batch _ => s.running.all fun flight =>
    decide (s.issued[batch]? = some flight.scope → flight.batch = batch)
  | _ => true

theorem Single.step (h : s.Single) {call : FlightCall} (hown : s.ownBatch call = true) :
    (s.step call).Single := by
  have hkeys := sameKeys_step h.sameKeys call
  have hstepped := step_stepped s call
  generalize s.step call = s' at hstepped hkeys
  cases hstepped with
  | quiet htables => exact ⟨hkeys, htables ▸ h.tracked, h.apart⟩
  | looked orders now htables =>
    exact ⟨hkeys, fun f hf => htables ▸ h.tracked_unexpired hf, h.apart.filter _⟩
  | handed orders now scope size hfree htables =>
    have hother : ∀ f ∈ unexpired now s.running, f.scope ≠ scope := by
      rintro f hf rfl
      refine hfree (((h.sameKeys.releaseAll _) f.scope).1.2 ?_)
      rw [h.tracked_unexpired hf]
      rfl
    refine ⟨hkeys, fun f hf => ?_, List.pairwise_append.2
      ⟨h.apart.filter _, List.pairwise_singleton _ _, fun f hf g hg => ?_⟩⟩
    · rw [htables, InFlight.start, Dict.lookup_insert_if]
      rcases List.mem_append.1 hf with hf | hf
      · rw [if_neg (hother f hf)]
        exact h.tracked_unexpired hf
      · obtain rfl := List.mem_singleton.1 hf
        rw [if_pos rfl, InFlight.releaseAll_span]
        rfl
    · obtain rfl := List.mem_singleton.1 hg
      exact hother f hf
  | @completed q batch now scope hissued htables =>
    refine ⟨hkeys, fun f hf => ?_, h.apart.filter _⟩
    obtain ⟨hmem, hne⟩ := List.mem_filter.1 hf
    have hscope : f.scope ≠ scope := by
      rintro rfl
      have := of_decide_eq_true (List.all_eq_true.1 hown f hmem)
      exact of_decide_eq_true hne (this hissued)
    rw [htables, InFlight.release, Dict.lookup_erase_if, if_neg hscope]
    exact h.tracked f hmem
  | extended scope current deadline hcurrent hscopes hsizes hdeadlines =>
    have hscope : ∀ f : Flight, (extend scope deadline f).scope = f.scope := by
      intro f
      unfold extend
      split <;> rfl
    refine ⟨hkeys, fun f hf => ?_, ?_⟩
    · obtain ⟨f, hmem, rfl⟩ := List.mem_map.1 hf
      have htracked := h.tracked f hmem
      rw [hscope, hdeadlines, extend]
      split
      next hf =>
        rw [hf, hcurrent] at htracked
        rw [Option.some.inj htracked]
      next => exact htracked
    · rw [List.pairwise_map]
      exact h.apart.imp fun hne => by rwa [hscope, hscope]

theorem single_start (dedupMode : DedupMode) (deadline : Duration) : (start dedupMode deadline).Single where
  sameKeys scope := by simp [start, EventQueue.new, EventQueue.inFlight]
  tracked flight h := by cases h
  apart := List.Pairwise.nil

/-- The three tables always have the same keys; and in a run in which no batch is marked complete
while another one of its scope is running, every running batch keeps its scope in flight and no
other batch of the scope is handed out meanwhile. -/
theorem single_flight (dedupMode : DedupMode) (deadline : Duration) (calls : List FlightCall) :
    let s := runFrom step (start dedupMode deadline) calls
    (∀ scope, (scope ∈ s.queue.inFlightScopes ↔ (s.queue.inFlightDeadlines.lookup scope).isSome) ∧
      (scope ∈ s.queue.inFlightScopes ↔ (s.queue.inFlightBatchSizes.lookup scope).isSome)) ∧
    (Along step (fun s call => s.ownBatch call = true) (start dedupMode deadline) calls →
      (∀ flight ∈ s.running, flight.scope ∈ s.queue.inFlightScopes) ∧
        s.running.Pairwise fun f g => f.scope ≠ g.scope) := by
  intro s
  have hstart := single_start dedupMode deadline
  refine ⟨?_, fun hown => ?_⟩
  · exact runFrom_history (p := fun _ (s : Flights) => s.queue.inFlight.SameKeys) hstart.sameKeys
      (fun _ call h => sameKeys_step h call) calls
  · have hsingle := hown.preserves (fun s call h hcall => h.step hcall) hstart
    exact ⟨fun flight hf => hsingle.inFlight hf, hsingle.apart⟩

section Sample

def punctual : List FlightCall :=
  [.push .stored (Harness.mention 1), .flushNext .stored 10, .push .stored (Harness.mention 2),
    .markComplete 0 20, .flushNext .stored 30]

/-- The first turn's deadline passes, the second mention is dispatched, and then the first turn is
marked complete. -/
def overdue : List FlightCall :=
  [.push .stored (Harness.mention 1), .flushNext .stored 10, .push .stored (Harness.mention 2),
    .flushNext .stored 200, .markComplete 0 210, .push .stored (Harness.mention 3), .flushNext .stored 220]

end Sample

theorem single_flight_punctual :
    Along step (fun s call => s.ownBatch call = true) (start .queue 100) punctual ∧
      (runFrom step (start .queue 100) punctual).running = [⟨1, .conversation Harness.oneChannel, 130⟩] ∧
      ∀ flight ∈ (runFrom step (start .queue 100) punctual).running,
        flight.scope ∈ (runFrom step (start .queue 100) punctual).queue.inFlightScopes := by
  have hown : Along step (fun s call => s.ownBatch call = true) (start .queue 100) punctual := by
    decide
  exact ⟨hown, by decide, ((single_flight .queue 100 punctual).2 hown).1⟩

theorem late_completion_releases :
    (runFrom step (start .queue 100) overdue).running =
      [⟨1, .conversation Harness.oneChannel, 300⟩, ⟨2, .conversation Harness.oneChannel, 320⟩] := by
  decide

end Flights

end Colony.Acp
