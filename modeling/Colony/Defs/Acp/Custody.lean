import Colony.Defs.Acp.QueueLaws
import Colony.Defs.Data.Run

namespace Colony.Acp

open Colony.Data Colony.Core

inductive Exit
  | completed
  | removed
  | drained
  | deadLettered
  deriving DecidableEq

structure Harness where
  queue : EventQueue
  -- Batches handed out by `flush_next` and not given back since.
  held : List FlushBatch
  accepted : List EventId
  left : List (EventId × Exit)

/-- A batch is given back by its index among those held, so at most once and unaltered. -/
inductive Call
  | push (orders : MapOrders) (event : QueuedEvent)
  | flushNext (orders : MapOrders) (now : Instant)
  | markComplete (scope : SessionScope) (now : Instant)
  -- `mark_complete` of a batch that is not given back.
  | complete (i : Nat) (now : Instant)
  | requeue (orders : MapOrders) (i nanos : Nat) (now : Instant)
  | requeuePreserveTimestamps (orders : MapOrders) (i : Nat)
  | requeueAsCancelled (i : Nat) (reason : CancelReason)
  | markNativeSteerPending (scope : SessionScope) (eventId : String)
  | releaseNativeSteer (orders : MapOrders) (scope : SessionScope) (eventId : String)
  | removeEvent (scope : SessionScope) (eventId : String)
  | drainChannel (orders : MapOrders) (channelId : Uuid)
  | hasFlushableWork (orders : MapOrders) (now : Instant)
  | compactExpiredState (now : Instant)
  | extendInFlightDeadline (scope : SessionScope) (maxTurnSecs : Nat) (now : Instant)

def FlushBatch.ids (b : FlushBatch) : List EventId :=
  (b.events ++ b.cancelledEvents).map (·.event.id)

theorem FlushBatch.count_ids (b : FlushBatch) (id : EventId) : b.ids.count id = b.count id := by
  simp [ids, count, BatchEvent.count]

namespace Harness

def start (dedupMode : DedupMode) (inFlightDeadline : Duration) : Harness :=
  ⟨{ EventQueue.new dedupMode with inFlightDeadline := inFlightDeadline }, [], [], []⟩

def giveBack (s : Harness) (i : Nat) (f : FlushBatch → EventQueue × List (EventId × Exit)) :
    Harness :=
  match s.held[i]? with
  | none => s
  | some b =>
    let (queue, left) := f b
    { s with queue := queue, held := s.held.eraseIdx i, left := s.left ++ left }

def step (s : Harness) : Call → Harness
  | .push orders event =>
    let (accepted, queue) := s.queue.push orders event
    { s with
      queue := queue
      accepted := if accepted then s.accepted ++ [event.event.id] else s.accepted }
  | .flushNext orders now =>
    let (batch, queue) := s.queue.flushNext orders now
    { s with queue := queue, held := s.held ++ batch.toList }
  | .markComplete scope now => { s with queue := s.queue.markComplete scope now }
  | .complete i now => s.giveBack i fun b =>
    (s.queue.markComplete b.scope now, b.ids.map fun id => (id, .completed))
  | .requeue orders i nanos now => s.giveBack i fun b =>
    let (dead, queue) := s.queue.requeue orders b nanos now
    (queue, (dead.elim [] FlushBatch.ids).map fun id => (id, .deadLettered))
  | .requeuePreserveTimestamps orders i => s.giveBack i fun b =>
    (s.queue.requeuePreserveTimestamps orders b, [])
  | .requeueAsCancelled i reason => s.giveBack i fun b =>
    (s.queue.requeueAsCancelled b reason, [])
  | .markNativeSteerPending scope eventId =>
    { s with queue := (s.queue.markNativeSteerPending scope eventId).2 }
  | .releaseNativeSteer orders scope eventId =>
    { s with queue := s.queue.releaseNativeSteer orders scope eventId }
  | .removeEvent scope eventId =>
    { s with
      queue := s.queue.removeEvent scope eventId
      left := s.left ++ (s.queue.removedBy scope eventId).map fun qe => (qe.event.id, .removed) }
  | .drainChannel orders channelId =>
    { s with
      queue := (s.queue.drainChannel orders channelId).2
      left := s.left ++ (s.queue.drainedBy channelId).map fun id => (id, .drained) }
  | .hasFlushableWork orders now => { s with queue := (s.queue.hasFlushableWork orders now).2 }
  | .compactExpiredState now => { s with queue := s.queue.compactExpiredState now }
  | .extendInFlightDeadline scope maxTurnSecs now =>
    { s with queue := s.queue.extendInFlightDeadline scope maxTurnSecs now }

/-- Every id in a scope queue, the withheld table, the cancelled carry-over or a held batch. -/
def places (s : Harness) : List EventId :=
  (s.queue.queues.entries.flatMap fun e => e.2.map (·.event.id)) ++
    (s.queue.withheldNativeSteer.entries.flatMap fun e => e.2.map (·.event.id)) ++
    (s.queue.cancelledBatches.entries.flatMap fun e => e.2.map (·.event.id)) ++
    s.held.flatMap FlushBatch.ids

def gone (s : Harness) : List EventId :=
  s.left.map Prod.fst ++ s.queue.evicted.map (·.event.id)

def pushedIds (calls : List Call) : List EventId :=
  calls.filterMap fun
    | .push _ event => some event.event.id
    | _ => none

/-- A batch that carries cancelled events goes through `requeue` only to be dead-lettered. -/
def KeepsCancelled (s : Harness) : Call → Prop
  | .requeue _ i _ _ => ∀ b ∈ s.held[i]?, b.cancelledEvents = [] ∨
      MAX_RETRIES ≤ Dict.getD s.queue.retryCounts b.scope 0
  | _ => True

instance (s : Harness) : (call : Call) → Decidable (KeepsCancelled s call)
  | .requeue _ i _ _ => inferInstanceAs (Decidable (∀ b ∈ s.held[i]?, _))
  | .push .. | .flushNext .. | .markComplete .. | .complete .. | .requeuePreserveTimestamps ..
  | .requeueAsCancelled .. | .markNativeSteerPending .. | .releaseNativeSteer .. | .removeEvent ..
  | .drainChannel .. | .hasFlushableWork .. | .compactExpiredState ..
  | .extendInFlightDeadline .. => .isTrue trivial

def Conserves (s : Harness) : Prop := ∀ id, s.places.count id + s.gone.count id = s.accepted.count id

theorem count_places_gone (s : Harness) (id : EventId) :
    s.places.count id + s.gone.count id =
      s.queue.tally id + (s.held.map fun b => b.count id).sum + (s.left.map Prod.fst).count id := by
  simp only [places, gone, EventQueue.tally, Dict.total, List.count_append, List.count_flatMap,
    Function.comp_def, QueuedEvent.count, BatchEvent.count, FlushBatch.count_ids]
  omega

theorem sum_eraseIdx {held : List FlushBatch} {i : Nat} {b : FlushBatch} (h : held[i]? = some b)
    (id : EventId) :
    ((held.eraseIdx i).map fun b => b.count id).sum + b.count id =
      (held.map fun b => b.count id).sum := by
  obtain ⟨hi, rfl⟩ := List.getElem?_eq_some_iff.1 h
  have hsum := ((List.getElem_cons_eraseIdx_perm hi).map fun b => b.count id).sum_nat
  simp only [List.map_cons, List.sum_cons] at hsum
  omega

theorem Conserves.giveBack {s : Harness} (h : s.Conserves) (i : Nat)
    {f : FlushBatch → EventQueue × List (EventId × Exit)}
    (hf : ∀ b ∈ s.held[i]?, ∀ id,
      (f b).1.tally id + ((f b).2.map Prod.fst).count id = s.queue.tally id + b.count id) :
    (s.giveBack i f).Conserves := by
  unfold Harness.giveBack
  cases hb : s.held[i]? with
  | none => exact h
  | some b =>
    intro id
    have hs := h id
    have hmove := hf b hb id
    have hheld := sum_eraseIdx hb id
    rw [count_places_gone] at hs ⊢
    simp only [List.map_append, List.count_append]
    omega

theorem Conserves.queue {s : Harness} (h : s.Conserves) {queue : EventQueue}
    (hq : ∀ id, queue.tally id = s.queue.tally id) : ({ s with queue := queue } : Harness).Conserves := by
  intro id
  have hs := h id
  rw [count_places_gone] at hs ⊢
  simp only [hq id]
  exact hs

theorem Conserves.requeue {s : Harness} (h : s.Conserves) (orders : MapOrders) (i nanos : Nat)
    (now : Instant) (hok : s.KeepsCancelled (.requeue orders i nanos now)) :
    (s.step (.requeue orders i nanos now)).Conserves := by
  refine h.giveBack i fun b hb id => ?_
  have htally := EventQueue.tally_requeue s.queue orders id b nanos now
  dsimp only
  cases hout : (s.queue.requeue orders b nanos now).1 with
  | some dead =>
    obtain rfl : dead = b := by
      unfold EventQueue.requeue at hout
      dsimp only at hout
      split at hout
      · exact (Option.some.inj hout).symm
      · cases hout
    simp only [hout, Option.isSome_some, if_true] at htally
    simp only [htally, Option.elim_some, List.map_map, Function.comp_def, List.map_id',
      FlushBatch.count_ids]
    rfl
  | none =>
    -- The throttle branch: the condition rules out anything in `cancelled_events`.
    have hcancelled : b.cancelledEvents = [] := by
      refine (hok b hb).resolve_right fun hmax => ?_
      unfold EventQueue.requeue at hout
      dsimp only at hout
      rw [if_pos (Nat.lt_succ_of_le hmax)] at hout
      cases hout
    simp only [hout, Option.isSome_none, Bool.false_eq_true, if_false] at htally
    simp [htally, FlushBatch.count, hcancelled]

theorem Conserves.step {s : Harness} (h : s.Conserves) (call : Call) (hok : s.KeepsCancelled call) :
    (s.step call).Conserves := by
  cases call with
  | push orders event =>
    intro id
    have hs := h id
    have htally := EventQueue.tally_push s.queue orders id event
    rw [count_places_gone] at hs ⊢
    simp only [Harness.step]
    split
    · next hacc =>
      simp only [hacc, if_true] at htally
      simp only [htally, List.count_append, QueuedEvent.count, List.map_cons, List.map_nil]
      omega
    · next hrej =>
      simp only [hrej, Bool.false_eq_true, if_false] at htally
      omega
  | flushNext orders now =>
    intro id
    have hs := h id
    have htally := EventQueue.tally_flushNext s.queue orders id now
    rw [count_places_gone] at hs ⊢
    simp only [Harness.step]
    cases hb : (s.queue.flushNext orders now).1 with
    | none =>
      simp only [hb, Option.elim_none] at htally
      simp only [Option.toList_none, List.append_nil]
      omega
    | some b =>
      simp only [hb, Option.elim_some] at htally
      simp only [Option.toList_some, List.map_append, List.map_cons, List.map_nil, List.sum_append,
        List.sum_cons, List.sum_nil]
      omega
  | markComplete scope now => exact h.queue fun id => EventQueue.tally_markComplete ..
  | complete i now =>
    refine h.giveBack i fun b _ id => ?_
    simp [Function.comp_def, FlushBatch.count_ids]
  | requeue orders i nanos now => exact h.requeue orders i nanos now hok
  | requeuePreserveTimestamps orders i =>
    refine h.giveBack i fun b _ id => ?_
    simp only [List.map_nil, List.count_nil, Nat.add_zero]
    exact EventQueue.tally_requeuePreserveTimestamps ..
  | requeueAsCancelled i reason =>
    refine h.giveBack i fun b _ id => ?_
    simp only [List.map_nil, List.count_nil, Nat.add_zero]
    exact EventQueue.tally_requeueAsCancelled ..
  | markNativeSteerPending scope eventId =>
    exact h.queue fun id => EventQueue.tally_markNativeSteerPending ..
  | releaseNativeSteer orders scope eventId =>
    exact h.queue fun id => EventQueue.tally_releaseNativeSteer ..
  | removeEvent scope eventId =>
    intro id
    have hs := h id
    have htally := EventQueue.tally_removeEvent s.queue id scope eventId
    rw [count_places_gone] at hs ⊢
    simp only [Harness.step, List.map_append, List.map_map, List.count_append]
    simp only [QueuedEvent.count] at htally
    change _ + _ + (_ + ((s.queue.removedBy scope eventId).map (·.event.id)).count id) = _
    omega
  | drainChannel orders channelId =>
    intro id
    have hs := h id
    have htally := EventQueue.tally_drainChannel s.queue orders id channelId
    rw [count_places_gone] at hs ⊢
    simp only [Harness.step, List.map_append, List.map_map, List.count_append, Function.comp_def,
      List.map_id']
    omega
  | hasFlushableWork orders now => exact h.queue fun id => EventQueue.tally_hasFlushableWork ..
  | compactExpiredState now => exact h.queue fun id => EventQueue.tally_compactExpiredState ..
  | extendInFlightDeadline scope maxTurnSecs now =>
    exact h.queue fun id => EventQueue.tally_extendInFlightDeadline ..

theorem accepted_giveBack (s : Harness) (i : Nat)
    (f : FlushBatch → EventQueue × List (EventId × Exit)) :
    (s.giveBack i f).accepted = s.accepted := by
  unfold giveBack
  split <;> rfl

theorem accepted_step (s : Harness) (call : Call) :
    ∃ l, l.Sublist (pushedIds [call]) ∧ (s.step call).accepted = s.accepted ++ l := by
  cases call with
  | push orders event =>
    simp only [step]
    split
    · exact ⟨[event.event.id], List.Sublist.refl _, rfl⟩
    · exact ⟨[], List.nil_sublist _, (List.append_nil _).symm⟩
  | complete | requeue | requeuePreserveTimestamps | requeueAsCancelled =>
    exact ⟨[], List.nil_sublist _, by simp only [step, accepted_giveBack, List.append_nil]⟩
  | _ => exact ⟨[], List.nil_sublist _, by simp only [step, List.append_nil]⟩

theorem accepted_run (s : Harness) (calls : List Call) :
    ∃ l, l.Sublist (pushedIds calls) ∧ (runFrom step s calls).accepted = s.accepted ++ l := by
  induction calls generalizing s with
  | nil => exact ⟨[], List.nil_sublist _, (List.append_nil _).symm⟩
  | cons call calls ih =>
    obtain ⟨l, hl, hstep⟩ := accepted_step s call
    obtain ⟨l', hl', hrun⟩ := ih (s.step call)
    refine ⟨l ++ l', ?_, by rw [runFrom_cons, hrun, hstep, List.append_assoc]⟩
    have hsplit : pushedIds (call :: calls) = pushedIds [call] ++ pushedIds calls := by
      rw [pushedIds, pushedIds, pushedIds, ← List.filterMap_append, List.singleton_append]
    exact hsplit ▸ hl.append hl'

theorem conserves_start (dedupMode : DedupMode) (deadline : Duration) :
    (start dedupMode deadline).Conserves := fun _ => rfl

/-- Over any run with distinct ids whose requeues keep what they are given, an accepted event
either left and is nowhere, or is in exactly one place. -/
theorem accepted_in_one_place (dedupMode : DedupMode) (deadline : Duration) (calls : List Call)
    (hids : (pushedIds calls).Nodup)
    (hok : Along step KeepsCancelled (start dedupMode deadline) calls) :
    let s := runFrom step (start dedupMode deadline) calls
    ∀ id ∈ s.accepted, (id ∈ s.gone ∧ id ∉ s.places) ∨ (id ∉ s.gone ∧ s.places.count id = 1) := by
  intro s id hid
  have hcons : s.Conserves :=
    hok.preserves (fun s call h hcall => h.step call hcall) (conserves_start dedupMode deadline)
  obtain ⟨l, hl, hacc⟩ := accepted_run (start dedupMode deadline) calls
  have hnodup : s.accepted.Nodup := hacc ▸ hl.nodup hids
  have hone : s.places.count id + s.gone.count id = 1 :=
    (hcons id).trans (List.count_eq_one_of_mem hnodup hid)
  by_cases hgone : id ∈ s.gone
  · have hpos := List.count_pos_iff.2 hgone
    exact .inl ⟨hgone, List.count_eq_zero.1 (by omega)⟩
  · have hzero := List.count_eq_zero.2 hgone
    exact .inr ⟨hgone, by omega⟩

def oneChannel : Uuid := ⟨1⟩

def mention (n : Nat) : QueuedEvent :=
  ⟨oneChannel, .conversation oneChannel, ⟨⟨n⟩, ⟨0⟩, n, 9, [], ""⟩, n, "mention",
    SessionScope.conversation_channelId oneChannel⟩

/-- A turn on the first mention is interrupted by the second, and the merged batch is held. -/
def interrupted : List Call :=
  [.push .stored (mention 1), .flushNext .stored 10, .push .stored (mention 2),
    .requeueAsCancelled 0 .interrupt, .markComplete (.conversation oneChannel) 20,
    .flushNext .stored 30]

theorem accepted_in_one_place_interrupted :
    let calls := interrupted ++ [.requeuePreserveTimestamps .stored 0]
    (pushedIds calls).Nodup ∧ Along step KeepsCancelled (start .queue 100) calls ∧
      let s := runFrom step (start .queue 100) calls
      s.accepted = [⟨1⟩, ⟨2⟩] ∧
      ∀ id ∈ s.accepted, (id ∈ s.gone ∧ id ∉ s.places) ∨ (id ∉ s.gone ∧ s.places.count id = 1) :=
  ⟨by decide, by decide, by decide,
    accepted_in_one_place .queue 100 (interrupted ++ [.requeuePreserveTimestamps .stored 0])
      (by decide) (by decide)⟩

theorem requeue_loses_cancelled :
    let calls := interrupted ++ [.requeue .stored 0 0 40]
    (pushedIds calls).Nodup ∧
      let s := runFrom step (start .queue 100) calls
      ⟨1⟩ ∈ s.accepted ∧ ⟨1⟩ ∉ s.gone ∧ ⟨1⟩ ∉ s.places ∧ s.places = [⟨2⟩] := by
  decide

end Harness

end Colony.Acp
