import Colony.Defs.Acp.Custody
import Colony.Defs.Acp.QueueStores

namespace Colony.Acp

open Colony.Data Colony.Core

namespace EventQueue

variable {q : EventQueue} {orders : MapOrders} {channelId : Uuid}

def Queues (q : EventQueue) (channelId : Uuid) (id : String) : Prop :=
  ∃ scope, scope.channelId = channelId ∧ ∃ qe ∈ Dict.getD q.queues scope [], qe.event.id.toHex = id

def SetsAside (q : EventQueue) (channelId : Uuid) (id : String) : Prop :=
  ∃ scope, scope.channelId = channelId ∧
    ((∃ qe ∈ Dict.getD q.withheldNativeSteer scope [], qe.event.id.toHex = id) ∨
      ∃ be ∈ Dict.getD q.cancelledBatches scope [], be.event.id.toHex = id)

theorem mem_drainChannel {id : String} :
    id ∈ (q.drainChannel orders channelId).1 ↔ q.Queues channelId id := by
  simp only [drainChannel, List.mem_flatMap, List.mem_filter, IterOrder.mem_order,
    decide_eq_true_eq, List.mem_map, Queues]
  constructor
  · rintro ⟨⟨scope, queue⟩, ⟨hmem, hchannel⟩, qe, hqe, rfl⟩
    refine ⟨scope, hchannel, qe, ?_, rfl⟩
    rw [Dict.getD_of_lookup ((Dict.mem_lookup_entries _ _ _).2 hmem)]
    exact hqe
  · rintro ⟨scope, hchannel, qe, hqe, rfl⟩
    cases hl : q.queues.lookup scope with
    | none =>
      rw [Dict.getD, hl] at hqe
      cases hqe
    | some queue =>
      rw [Dict.getD_of_lookup hl] at hqe
      exact ⟨⟨scope, queue⟩, ⟨(Dict.mem_lookup_entries _ _ _).1 hl, hchannel⟩, qe, hqe, rfl⟩

theorem lookup_retain_channel {V : Type} (m : Dict SessionScope V) (channelId : Uuid)
    (scope : SessionScope) :
    (Dict.retain m fun s _ => !decide (s.channelId = channelId)).lookup scope =
      if scope.channelId = channelId then none else m.lookup scope := by
  rw [Dict.lookup_retain]
  split
  next h => cases m.lookup scope <;> simp [h]
  next h => cases m.lookup scope <;> simp [h]

/-- Nothing of the channel stays in the three tables, other channels and the in-flight markers are
left alone, and the ids returned are those of all that was discarded exactly when every event that
was withheld or carried over has an id that was queued as well. -/
theorem drainChannel_returns_iff (q : EventQueue) (orders : MapOrders) (channelId : Uuid) :
    let out := q.drainChannel orders channelId
    (∀ scope, scope.channelId ≠ channelId →
      out.2.queues.lookup scope = q.queues.lookup scope ∧
        out.2.withheldNativeSteer.lookup scope = q.withheldNativeSteer.lookup scope ∧
        out.2.cancelledBatches.lookup scope = q.cancelledBatches.lookup scope) ∧
    (out.2.inFlightScopes = q.inFlightScopes ∧ out.2.inFlightDeadlines = q.inFlightDeadlines ∧
      out.2.inFlightBatchSizes = q.inFlightBatchSizes) ∧
    (∀ scope, scope.channelId = channelId →
      out.2.queues.lookup scope = none ∧ out.2.withheldNativeSteer.lookup scope = none ∧
        out.2.cancelledBatches.lookup scope = none) ∧
    ((∀ id, id ∈ out.1 ↔ q.Queues channelId id ∨ q.SetsAside channelId id) ↔
      ∀ id, q.SetsAside channelId id → q.Queues channelId id) := by
  refine ⟨fun scope hscope => ?_, ⟨rfl, rfl, rfl⟩, fun scope hscope => ?_, ?_⟩
  · simp only [drainChannel, lookup_retain_channel, if_neg hscope, and_self]
  · simp only [drainChannel, lookup_retain_channel, if_pos hscope, and_self]
  · simp only [mem_drainChannel, iff_self_or]

end EventQueue

namespace Harness

/-- A second mention comes while the first one's turn runs, and is withheld for a steer. -/
def steering : List Call :=
  [.push .stored (mention 1), .flushNext .stored 10, .push .stored (mention 2),
    .markNativeSteerPending (.conversation oneChannel) (mention 2).event.id.toHex]

theorem drained_unlisted :
    let q := (runFrom step (start .queue 100) steering).queue
    (q.drainChannel .stored oneChannel).1 = [] ∧
      Dict.getD q.withheldNativeSteer (.conversation oneChannel) [] = [mention 2] ∧
      Dict.getD (q.drainChannel .stored oneChannel).2.withheldNativeSteer (.conversation oneChannel)
        [] = [] := by
  decide +kernel

end Harness

end Colony.Acp
