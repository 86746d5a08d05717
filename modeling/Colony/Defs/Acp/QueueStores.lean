import Colony.Defs.Acp.QueueLaws
import Colony.Defs.Data.Each

namespace Colony.Acp

open Colony.Data Colony.Core

namespace EventQueue

section ChannelCap

variable {q : EventQueue} {orders : MapOrders} {channelId : Uuid}

theorem enforceChannelCap_keeps {p : EventQueue → Prop}
    (hstep : ∀ q scope, p q → p (q.evictFront scope)) (hq : p q) :
    p (q.enforceChannelCap orders channelId) := by
  unfold enforceChannelCap
  generalize q.channelEventTotal channelId = fuel
  induction fuel generalizing q with
  | zero => exact hq
  | succ fuel ih =>
    unfold enforceLoop
    split
    · split
      · exact hq
      · exact ih (hstep q _ hq)
    · exact hq

theorem enforceChannelCap_eq (q : EventQueue) (orders : MapOrders) (channelId : Uuid) :
    q.enforceChannelCap orders channelId =
      if q.channelEventTotal channelId > MAX_PENDING_PER_CHANNEL then
        match q.capVictim orders channelId with
        | none => q
        | some scope => (q.evictFront scope).enforceChannelCap orders channelId
      else q := by
  split
  next hover =>
    obtain ⟨fuel, hfuel⟩ : ∃ fuel, q.channelEventTotal channelId = fuel + 1 :=
      Nat.exists_eq_add_one.2 (Nat.zero_lt_of_lt hover)
    rw [enforceChannelCap, hfuel, enforceLoop, if_pos hover]
    cases hvictim : q.capVictim orders channelId with
    | none => rfl
    | some scope =>
      have hevict := channelEventTotal_evictFront q orders channelId hvictim
      have hleft : (q.evictFront scope).channelEventTotal channelId = fuel := by omega
      simp only [enforceChannelCap, hleft]
  next hunder => exact enforceChannelCap_of_le q orders channelId (Nat.le_of_not_lt hunder)

theorem of_capVictim {scope : SessionScope} (h : q.capVictim orders channelId = some scope) :
    ∃ qe queue, q.queues.lookup scope = some (qe :: queue) ∧
      ∀ k qe' queue', k.channelId = channelId → q.queues.lookup k = some (qe' :: queue') →
        qe.receivedAt ≤ qe'.receivedAt := by
  obtain ⟨-, qe, queue, hl⟩ := lookup_of_capVictim q orders channelId h
  obtain ⟨⟨_, entry⟩, hmin, rfl⟩ := Option.map_eq_some_iff.1 h
  have hmem := (List.mem_filter.1 (List.argmin_mem hmin)).1
  obtain rfl : entry = qe :: queue := by
    have hentry := (Dict.mem_lookup_entries _ _ _).2 ((IterOrder.mem_order _ _ _).1 hmem)
    exact Option.some.inj (hentry.symm.trans hl)
  refine ⟨qe, queue, hl, fun k qe' queue' hk hl' => ?_⟩
  have hk' : (⟨k, qe' :: queue'⟩ : Σ _ : SessionScope, List QueuedEvent) ∈
      (orders.queues.order q.queues.entries).filter fun e =>
        decide (e.1.channelId = channelId) && !e.2.isEmpty :=
    List.mem_filter.2 ⟨(IterOrder.mem_order _ _ _).2 ((Dict.mem_lookup_entries _ _ _).1 hl'),
      by simp [hk]⟩
  exact List.le_of_mem_argmin (f := fun e => headReceivedAt e.2) hk' hmin

theorem evictFront_frame (q : EventQueue) (scope : SessionScope) :
    q.evictFront scope =
      { q with
        queues := (q.evictFront scope).queues
        evicted := (q.evictFront scope).evicted } := by
  unfold evictFront
  split <;> rfl

theorem enforceChannelCap_frame (q : EventQueue) (orders : MapOrders) (channelId : Uuid) :
    q.enforceChannelCap orders channelId =
      { q with
        queues := (q.enforceChannelCap orders channelId).queues
        evicted := (q.enforceChannelCap orders channelId).evicted } := by
  refine enforceChannelCap_keeps (p := fun q' => q' = { q with queues := q'.queues, evicted := q'.evicted })
    (fun q' scope h => ?_) rfl
  rw [evictFront_frame q' scope, h]

@[simp] theorem enforceChannelCap_withheld : (q.enforceChannelCap orders channelId).withheldNativeSteer =
    q.withheldNativeSteer := by
  rw [enforceChannelCap_frame]

@[simp] theorem enforceChannelCap_cancelled : (q.enforceChannelCap orders channelId).cancelledBatches =
    q.cancelledBatches := by
  rw [enforceChannelCap_frame]

theorem getD_evictFront (q : EventQueue) (scope k : SessionScope) :
    Dict.getD (q.evictFront scope).queues k [] =
      (Dict.getD q.queues k []).drop (if k = scope then 1 else 0) := by
  cases h : q.queues.lookup scope with
  | none =>
    have hq : q.evictFront scope = q := by simp only [evictFront, h]
    rw [hq]
    split
    next heq =>
      subst heq
      simp only [Dict.getD, h, Option.getD_none, List.drop_nil]
    next => rfl
  | some queue =>
    simp only [evictFront, h]
    rw [Dict.getD_putBack]
    split
    next heq => rw [heq, Dict.getD_of_lookup h]
    next => rfl

theorem getD_enforceChannelCap (k : SessionScope) :
    Dict.getD (q.enforceChannelCap orders channelId).queues k [] <:+ Dict.getD q.queues k [] := by
  refine enforceChannelCap_keeps
    (p := fun q' => Dict.getD q'.queues k [] <:+ Dict.getD q.queues k []) (fun q' scope h => ?_)
    (List.suffix_refl _)
  rw [getD_evictFront]
  exact (List.drop_suffix _ _).trans h

end ChannelCap

def Shrinks (P : SessionScope → List QueuedEvent → Prop) : Prop :=
  ∀ scope l l', l'.Sublist l → l' ≠ [] → P scope l → P scope l'

section Queues

variable {q : EventQueue} {orders : MapOrders} {P : SessionScope → List QueuedEvent → Prop}

theorem Shrinks.putBack (hP : Shrinks P) {m : Dict SessionScope (List QueuedEvent)}
    (h : Dict.Each P m) {scope : SessionScope} {l : List QueuedEvent}
    (hl : l.Sublist (Dict.getD m scope [])) : Dict.Each P (Dict.putBack m scope l) := by
  refine h.putBack fun hne => hP scope _ l hl hne (h.getD fun hnil => hne ?_)
  exact List.eq_nil_of_sublist_nil (hnil ▸ hl)

theorem Shrinks.enforceChannelCap (hP : Shrinks P) (h : Dict.Each P q.queues) (channelId : Uuid) :
    Dict.Each P (q.enforceChannelCap orders channelId).queues := by
  refine enforceChannelCap_keeps (p := fun q => Dict.Each P q.queues) (fun q scope h => ?_) h
  unfold evictFront
  cases hl : q.queues.lookup scope with
  | none => exact h
  | some queue =>
    exact hP.putBack h (Dict.getD_of_lookup hl [] ▸ List.drop_sublist 1 queue)

theorem Shrinks.restore (hP : Shrinks P) (h : Dict.Each P q.queues) {scope : SessionScope}
    {events : List QueuedEvent} (channelId : Uuid)
    (hnew : P scope ((events ++ Dict.getD q.queues scope []).take MAX_PENDING_PER_SCOPE)) :
    Dict.Each P ((q.pushFront scope events).enforceChannelCap orders channelId).queues :=
  hP.enforceChannelCap (q := q.pushFront scope events) (h.insert hnew) channelId

theorem recover_eq (q : EventQueue) (orders : MapOrders) (scope : SessionScope) :
    q.recoverWithheldForExpiredScope orders scope =
      match q.withheldNativeSteer.lookup scope with
      | none => q
      | some entries =>
        (({ q with withheldNativeSteer := q.withheldNativeSteer.erase scope } : EventQueue).pushFront
          scope entries).enforceChannelCap orders scope.channelId := rfl

theorem getD_pushFront_ne (q : EventQueue) {scope k : SessionScope} (hk : k ≠ scope)
    (events : List QueuedEvent) :
    Dict.getD (q.pushFront scope events).queues k [] = Dict.getD q.queues k [] := by
  simp only [pushFront]
  rw [Dict.getD_insert, if_neg hk]

theorem expireScope_withheld (q : EventQueue) (scope : SessionScope) :
    (expireScope orders q scope).withheldNativeSteer = q.withheldNativeSteer.erase scope := by
  rw [expireScope, recover_eq]
  dsimp only
  cases h : q.withheldNativeSteer.lookup scope with
  | none =>
    refine (AList.ext ?_).symm
    exact List.kerase_of_notMem_keys (AList.lookup_eq_none.1 h)
  | some entries => exact enforceChannelCap_withheld

theorem getD_expireScope {q : EventQueue} {scope k : SessionScope} (hk : k ≠ scope) :
    Dict.getD (expireScope orders q scope).queues k [] <:+ Dict.getD q.queues k [] := by
  rw [expireScope, recover_eq]
  dsimp only
  cases q.withheldNativeSteer.lookup scope with
  | none => exact List.suffix_refl _
  | some entries =>
    dsimp only
    refine getD_enforceChannelCap k |>.trans ?_
    rw [getD_pushFront_ne _ hk]

theorem Shrinks.expireScopes (hP : Shrinks P) {expired : List SessionScope}
    (h : Dict.Each P q.queues)
    (hnew : ∀ scope ∈ expired, ∀ entries, q.withheldNativeSteer.lookup scope = some entries →
      ∀ queue, queue.Sublist (Dict.getD q.queues scope []) →
        P scope ((entries ++ queue).take MAX_PENDING_PER_SCOPE)) :
    Dict.Each P (expired.foldl (expireScope orders) q).queues := by
  induction expired generalizing q with
  | nil => exact h
  | cons scope expired ih =>
    rw [List.foldl_cons]
    refine ih ?_ fun k hk entries hentries queue hqueue => ?_
    · rw [expireScope, recover_eq]
      dsimp only
      cases hl : q.withheldNativeSteer.lookup scope with
      | none => exact h
      | some entries =>
        dsimp only
        refine hP.restore ?_ scope.channelId ?_
        · exact h
        · exact hnew scope List.mem_cons_self entries hl _ (List.Sublist.refl _)
    · rw [expireScope_withheld, Dict.lookup_erase_if] at hentries
      split at hentries
      · cases hentries
      next hne =>
        exact hnew k (List.mem_cons_of_mem _ hk) entries hentries queue
          (hqueue.trans (getD_expireScope hne).sublist)

def expired (q : EventQueue) (orders : MapOrders) (now : Instant) : List SessionScope :=
  ((orders.deadlines.order q.inFlightDeadlines.entries).filter
    fun (e : Σ _ : SessionScope, Instant) => decide (now ≥ e.2)).map Sigma.fst

theorem expireInFlight_eq (q : EventQueue) (orders : MapOrders) (now : Instant) :
    q.expireInFlight orders now = (q.expired orders now).foldl (expireScope orders) q := rfl

theorem mem_expired {now : Instant} {scope : SessionScope} :
    scope ∈ q.expired orders now ↔ ∃ t ∈ q.inFlightDeadlines.lookup scope, t ≤ now := by
  simp only [expired, List.mem_map, List.mem_filter, IterOrder.mem_order, decide_eq_true_eq]
  constructor
  · rintro ⟨⟨k, t⟩, ⟨hmem, ht⟩, rfl⟩
    exact ⟨t, (Dict.mem_lookup_entries _ _ _).2 hmem, ht⟩
  · rintro ⟨t, hmem, ht⟩
    exact ⟨⟨scope, t⟩, ⟨(Dict.mem_lookup_entries _ _ _).1 hmem, ht⟩, rfl⟩

end Queues

section Flush

variable {q : EventQueue} {orders : MapOrders} {now : Instant} {scope : SessionScope}

def Eligible (q : EventQueue) (now : Instant) (scope : SessionScope) : Prop :=
  scope ∉ q.inFlightScopes ∧ ∀ t ∈ q.retryAfter.lookup scope, t ≤ now

theorem flushable_iff {queue : List QueuedEvent} :
    q.flushable now ⟨scope, queue⟩ = true ↔ queue ≠ [] ∧ q.Eligible now scope := by
  unfold flushable Eligible
  cases q.retryAfter.lookup scope <;> simp [and_assoc]

theorem of_nextScope (h : q.nextScope orders now = some scope) :
    ∃ qe queue, q.queues.lookup scope = some (qe :: queue) ∧ q.Eligible now scope ∧
      ∀ k qe' queue', q.queues.lookup k = some (qe' :: queue') → q.Eligible now k →
        qe.receivedAt ≤ qe'.receivedAt := by
  obtain ⟨⟨_, queue⟩, hmin, rfl⟩ := Option.map_eq_some_iff.1 h
  obtain ⟨hmem, hflush⟩ := List.mem_filter.1 (List.argmin_mem hmin)
  obtain ⟨hne, heligible⟩ := flushable_iff.1 hflush
  rw [IterOrder.mem_order] at hmem
  cases queue with
  | nil => exact absurd rfl hne
  | cons qe queue =>
    refine ⟨qe, queue, (Dict.mem_lookup_entries _ _ _).2 hmem, heligible, fun k qe' queue' hk he => ?_⟩
    have hk' : (⟨k, qe' :: queue'⟩ : Σ _ : SessionScope, List QueuedEvent) ∈
        (orders.queues.order q.queues.entries).filter (q.flushable now) :=
      List.mem_filter.2 ⟨(IterOrder.mem_order _ _ _).2 ((Dict.mem_lookup_entries _ _ _).1 hk),
        flushable_iff.2 ⟨List.cons_ne_nil _ _, he⟩⟩
    exact List.le_of_mem_argmin (f := fun e => headReceivedAt e.2) hk' hmin

theorem of_nextCancelledScope (h : q.nextCancelledScope orders = some scope) :
    ∃ events, q.cancelledBatches.lookup scope = some events ∧ scope ∉ q.inFlightScopes := by
  obtain ⟨⟨_, events⟩, hfind, rfl⟩ := Option.map_eq_some_iff.1 h
  have hmem := (IterOrder.mem_order _ _ _).1 (List.mem_of_find?_eq_some hfind)
  exact ⟨events, (Dict.mem_lookup_entries _ _ _).2 hmem, by simpa using List.find?_some hfind⟩

inductive Flushed (orders : MapOrders) (now : Instant) (q : EventQueue) :
    Option FlushBatch × EventQueue → Prop
  | queued (scope : SessionScope) (hscope : q.nextScope orders now = some scope) :
      Flushed orders now q (some (q.flushQueued scope now).1, (q.flushQueued scope now).2)
  | cancelled (scope : SessionScope) (hscope : q.nextCancelledScope orders = some scope) :
      Flushed orders now q (some (q.flushCancelled scope now).1, (q.flushCancelled scope now).2)
  | nothing : Flushed orders now q (none, q)

theorem flushNext_flushed (q : EventQueue) (orders : MapOrders) (now : Instant) :
    Flushed orders now (q.expireInFlight orders now) (q.flushNext orders now) := by
  unfold flushNext
  dsimp only
  split
  next scope hscope => exact .queued scope hscope
  next =>
    split
    next scope hscope => exact .cancelled scope hscope
    next => exact .nothing

end Flush

end EventQueue

end Colony.Acp
