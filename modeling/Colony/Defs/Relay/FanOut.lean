import Colony.Defs.Relay.SubscriptionLaws

namespace Colony.Relay

open Colony.Data Colony.Core

theorem kinds_of_extractKindsFromFilters {filters : List Filter} {kinds : List Kind}
    (h : extractKindsFromFilters filters = some kinds) :
    ∀ f ∈ filters, ∃ filterKinds, f.kinds = some filterKinds ∧ filterKinds ⊆ kinds := by
  refine (foldlM_covers (P := fun f out => ∃ filterKinds, f.kinds = some filterKinds ∧
    filterKinds ⊆ out) ?_ ?_ h).2
  · rintro f xs ys hsub ⟨filterKinds, hf, hk⟩
    exact ⟨filterKinds, hf, fun k hm => hsub (hk hm)⟩
  · intro xs f ys hstep
    obtain ⟨filterKinds, hf, rfl⟩ := Option.map_eq_some_iff.1 hstep
    exact ⟨fun k hk => (mem_foldl_pushNew _ _ _).2 (.inl hk), filterKinds, hf,
      fun k hk => (mem_foldl_pushNew _ _ _).2 (.inr hk)⟩

theorem keys_of_extractGlobalPKindIndexKeys {c : CommunityId} {filters : List Filter}
    {keys : List GlobalPKindIndexKey} (h : extractGlobalPKindIndexKeys c filters = some keys) :
    ∀ f ∈ filters, ∃ kinds, f.kinds = some kinds ∧ ∀ kind ∈ kinds, ∃ pValues,
      f.genericTags.lookup pTag = some pValues ∧ ∀ p ∈ pValues, ⟨c, kind, p⟩ ∈ keys := by
  refine (foldlM_covers (P := fun f out => ∃ kinds, f.kinds = some kinds ∧ ∀ kind ∈ kinds,
    ∃ pValues, f.genericTags.lookup pTag = some pValues ∧ ∀ p ∈ pValues, ⟨c, kind, p⟩ ∈ out)
    ?_ ?_ h).2
  · rintro f xs ys hsub ⟨kinds, hf, hk⟩
    refine ⟨kinds, hf, fun kind hkind => ?_⟩
    obtain ⟨pValues, hp, hmem⟩ := hk kind hkind
    exact ⟨pValues, hp, fun p hpm => hsub (hmem p hpm)⟩
  · intro xs f ys hstep
    split at hstep
    · cases hstep
    · next hf =>
      cases hstep
      exact ⟨fun _ hk => hk, [], hf, by simp⟩
    · next kinds _ hf =>
      split at hstep
      · cases hstep
      · cases hstep
      · next pValues _ hp =>
        cases hstep
        refine ⟨fun k hk => (mem_foldl_pushNew _ _ _).2 (.inl hk), kinds, hf, fun kind hkind =>
          ⟨pValues, hp, fun p hpm => (mem_foldl_pushNew _ _ _).2 (.inr ?_)⟩⟩
        exact List.mem_flatMap.2 ⟨kind, hkind, List.mem_map.2 ⟨p, hpm, rfl⟩⟩

theorem mem_eventPTagValues (event : StoredEvent) (p : String) :
    p ∈ eventPTagValues event ↔ ∃ t ∈ event.event.tags, t.kind = "p" ∧ t.content = some p := by
  simp [eventPTagValues, and_assoc]

namespace SubEntry

def wants (entry : SubEntry) (communityId : CommunityId) (event : StoredEvent) : Bool :=
  decide (entry.communityId = communityId) && entry.scope.matchesChannel event.channelId &&
    filtersMatch entry.filters event

theorem exists_key_probed {entry : SubEntry} {c : CommunityId} {event : StoredEvent}
    (h : entry.wants c event = true) : ∃ k ∈ probed c event, k ∈ entry.keys := by
  simp only [wants, Bool.and_eq_true, decide_eq_true_eq, filtersMatch, List.any_eq_true] at h
  obtain ⟨⟨rfl, hscope⟩, f, hf, hmatch⟩ := h
  unfold keys probed
  cases hs : entry.scope with
  | channels ids =>
    cases hch : event.channelId with
    | none => simp [hs, hch, SubscriptionScope.matchesChannel] at hscope
    | some chId =>
      have hmem : chId ∈ ids := by
        simpa [hs, hch, SubscriptionScope.matchesChannel] using hscope
      simp only [filedUnder, List.mem_flatMap]
      cases hk : extractKindsFromFilters entry.filters with
      | none => exact ⟨.channelWildcard entry.communityId chId, by simp, chId, hmem, by simp⟩
      | some kinds =>
        obtain ⟨filterKinds, hfk, hsub⟩ := kinds_of_extractKindsFromFilters hk f hf
        have hkind := hsub (filterMatchOne_kinds hmatch hfk)
        exact ⟨.channelKind entry.communityId ⟨chId, event.event.kind⟩, by simp, chId, hmem,
          by simpa using hkind⟩
  | global =>
    cases hch : event.channelId with
    | some chId => simp [hs, hch, SubscriptionScope.matchesChannel] at hscope
    | none =>
      simp only [filedUnder]
      cases hp : extractGlobalPKindIndexKeys entry.communityId entry.filters with
      | some keys =>
        obtain ⟨kinds, hfk, hkeys⟩ := keys_of_extractGlobalPKindIndexKeys hp f hf
        obtain ⟨pValues, hpv, hmem⟩ := hkeys _ (filterMatchOne_kinds hmatch hfk)
        obtain ⟨t, ht, hkind, p, hpm, hcontent⟩ :=
          tagMatchOne_of_ne_h (by simp) (filterMatchOne_tag hmatch hpv)
        rw [toText_pTag] at hkind
        have hev := (mem_eventPTagValues event p).2 ⟨t, ht, hkind, hcontent⟩
        exact ⟨.globalPKind ⟨entry.communityId, event.event.kind, p⟩, by simp [hev], by simp [hmem p hpm]⟩
      | none =>
        cases hk : extractKindsFromFilters entry.filters with
        | none => exact ⟨.globalWildcard entry.communityId, by simp, by simp⟩
        | some kinds =>
          obtain ⟨filterKinds, hfk, hsub⟩ := kinds_of_extractKindsFromFilters hk f hf
          have hkind := hsub (filterMatchOne_kinds hmatch hfk)
          exact ⟨.globalKind entry.communityId event.event.kind, by simp, by simpa using hkind⟩

end SubEntry

namespace SubscriptionRegistry

theorem mem_foldl_pushMatch (r : SubscriptionRegistry) (c : CommunityId) (event : StoredEvent)
    (candidates results : List Subscriber) (who : Subscriber) :
    who ∈ candidates.foldl (r.pushMatch c event) results ↔
      who ∈ results ∨ (who ∈ candidates ∧ r.wants c event who = true) := by
  induction candidates generalizing results with
  | nil => simp
  | cons x xs ih =>
    rw [List.foldl_cons, ih, pushMatch, List.mem_cons]
    by_cases hx : r.wants c event x = true
    · simp only [hx, if_true, mem_pushNew]
      grind
    · simp only [hx]
      grind

theorem nodup_foldl_pushMatch (r : SubscriptionRegistry) (c : CommunityId) (event : StoredEvent)
    (candidates : List Subscriber) {results : List Subscriber} (h : results.Nodup) :
    (candidates.foldl (r.pushMatch c event) results).Nodup := by
  induction candidates generalizing results with
  | nil => exact h
  | cons x xs ih =>
    refine ih ?_
    unfold pushMatch
    split
    · exact nodup_pushNew x h
    · exact h

/-- All live subscriptions an event of one community matches, found by reading every entry. -/
def scan (r : SubscriptionRegistry) (communityId : CommunityId) (event : StoredEvent) :
    List Subscriber :=
  r.subs.entries.flatMap fun conn =>
    (conn.2.entries.filter fun (sub : Σ _ : SubId, SubEntry) =>
      sub.2.wants communityId event).map fun sub => (conn.1, sub.1)

theorem mem_scan (r : SubscriptionRegistry) (c : CommunityId) (event : StoredEvent)
    (who : Subscriber) :
    who ∈ r.scan c event ↔ ∃ entry, r.getEntry who = some entry ∧ entry.wants c event = true := by
  obtain ⟨connId, subId⟩ := who
  simp only [scan, List.mem_flatMap, List.mem_map, List.mem_filter, Prod.mk.injEq, getEntry,
    Option.bind_eq_some_iff]
  constructor
  · rintro ⟨⟨_, connSubs⟩, hc, ⟨_, entry⟩, ⟨hs, hw⟩, rfl, rfl⟩
    exact ⟨entry, ⟨connSubs, (Dict.mem_lookup_entries _ _ _).2 hc,
      (Dict.mem_lookup_entries _ _ _).2 hs⟩, hw⟩
  · rintro ⟨entry, ⟨connSubs, hc, hs⟩, hw⟩
    exact ⟨⟨connId, connSubs⟩, (Dict.mem_lookup_entries _ _ _).1 hc, ⟨subId, entry⟩,
      ⟨(Dict.mem_lookup_entries _ _ _).1 hs, hw⟩, rfl, rfl⟩

theorem nodup_scan (r : SubscriptionRegistry) (c : CommunityId) (event : StoredEvent) :
    (r.scan c event).Nodup := by
  refine List.nodup_flatMap.2 ⟨fun conn _ => ?_, ?_⟩
  · refine List.Nodup.map_on ?_ (conn.2.nodupKeys.nodup.filter _)
    intro a ha b hb heq
    exact conn.2.nodupKeys.eq_of_fst_eq (List.mem_filter.1 ha).1 (List.mem_filter.1 hb).1
      (Prod.mk.inj heq).2
  · refine (List.nodupKeys_iff_pairwise.1 r.subs.nodupKeys).imp ?_
    intro a b hne who ha hb
    obtain ⟨_, _, rfl⟩ := List.mem_map.1 ha
    obtain ⟨_, _, heq⟩ := List.mem_map.1 hb
    exact hne (Prod.mk.inj heq).1.symm

theorem wants_iff (r : SubscriptionRegistry) (c : CommunityId) (event : StoredEvent)
    (who : Subscriber) :
    r.wants c event who = true ↔
      ∃ entry, r.getEntry who = some entry ∧ entry.wants c event = true := by
  unfold wants
  cases r.getEntry who <;> simp [SubEntry.wants]

theorem Indexed.mem_fanOutScoped {r : SubscriptionRegistry} (h : r.Indexed) (c : CommunityId)
    (event : StoredEvent) (who : Subscriber) :
    who ∈ r.fanOutScoped c event ↔ who ∈ r.scan c event := by
  rw [fanOutScoped_eq, mem_foldl_pushMatch, mem_scan, ← wants_iff]
  constructor
  · rintro (hnil | ⟨_, hw⟩)
    · cases hnil
    · exact hw
  · intro hw
    obtain ⟨entry, hentry, hwants⟩ := (wants_iff r c event who).1 hw
    obtain ⟨k, hprobed, hkeys⟩ := SubEntry.exists_key_probed hwants
    exact .inr ⟨List.mem_flatMap.2 ⟨k, hprobed, (h who k).2 ⟨entry, hentry, hkeys⟩⟩, hw⟩

theorem Indexed.fanOutScoped_perm_scan {r : SubscriptionRegistry} (h : r.Indexed)
    (c : CommunityId) (event : StoredEvent) :
    (r.fanOutScoped c event).Perm (r.scan c event) := by
  refine (List.perm_ext_iff_of_nodup ?_ (nodup_scan r c event)).2 (h.mem_fanOutScoped c event)
  rw [fanOutScoped_eq]
  exact nodup_foldl_pushMatch r c event _ List.nodup_nil

/-- The calls that change the registry; the orders are those its maps are walked in. -/
inductive Op
  | registerWithScope (communityId : CommunityId) (connId : ConnId) (subId : SubId)
      (filters : List Filter) (scope : SubscriptionScope)
  | removeSubscription (connId : ConnId) (subId : SubId)
  | removeConnection (order : IterOrder (Σ _ : SubId, SubEntry)) (connId : ConnId)
  | removeChannelSubscriptionsScoped (order : IterOrder (Σ _ : SubId, SubEntry))
      (communityId : CommunityId) (connId : ConnId) (channelId : Uuid)

def step (r : SubscriptionRegistry) : Op → SubscriptionRegistry
  | .registerWithScope communityId connId subId filters scope =>
    (r.registerWithScope communityId connId subId filters scope).2
  | .removeSubscription connId subId => (r.removeSubscription connId subId).2
  | .removeConnection order connId => (r.removeConnection order connId).2
  | .removeChannelSubscriptionsScoped order communityId connId channelId =>
    (r.removeChannelSubscriptionsScoped order communityId connId channelId).2

def run (ops : List Op) : SubscriptionRegistry := ops.foldl step new

theorem Indexed.step {r : SubscriptionRegistry} (h : r.Indexed) (op : Op) : (r.step op).Indexed := by
  cases op with
  | registerWithScope c connId subId filters scope => exact h.registerWithScope c connId subId filters scope
  | removeSubscription connId subId => exact h.removeSubscription connId subId
  | removeConnection order connId => exact h.removeConnection order connId
  | removeChannelSubscriptionsScoped order c connId chId =>
    exact h.removeChannelSubscriptionsScoped order c connId chId

theorem indexed_run (ops : List Op) : (run ops).Indexed :=
  List.foldlRecOn ops SubscriptionRegistry.step indexed_new fun _ h op _ => h.step op

/-- After every history the five-index lookup answers as the scan of all subscriptions does. -/
theorem fanOutScoped_run (ops : List Op) (c : CommunityId) (event : StoredEvent) :
    ((run ops).fanOutScoped c event).Nodup ∧
      ((run ops).fanOutScoped c event).Perm ((run ops).scan c event) :=
  have hperm := (indexed_run ops).fanOutScoped_perm_scan c event
  ⟨hperm.nodup_iff.2 (nodup_scan _ c event), hperm⟩

end SubscriptionRegistry

end Colony.Relay
