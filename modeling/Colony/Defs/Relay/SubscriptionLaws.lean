import Colony.Defs.Relay.Subscription

namespace Colony.Relay

open Colony.Data Colony.Core

namespace Index

variable {K : Type} [DecidableEq K]

theorem bucket_file (m : Index K) (k k' : K) (who : Subscriber) :
    bucket (file m k who) k' = if k' = k then bucket m k ++ [who] else bucket m k' := by
  rw [bucket, Dict.getD, file, Dict.lookup_insert_if]
  split <;> rfl

theorem bucket_unfile (m : Index K) (k k' : K) (who : Subscriber) :
    bucket (unfile m k who) k' =
      if k' = k then (bucket m k).filter (fun e => !decide (e = who)) else bucket m k' := by
  cases h : m.lookup k with
  | none =>
    have hk : bucket m k = [] := by simp [bucket, Dict.getD, h]
    simp only [unfile, h]
    split
    · next he => subst he; simp [hk]
    · rfl
  | some entries =>
    have hk : bucket m k = entries := by simp [bucket, Dict.getD, h]
    rw [hk]
    simp only [unfile, h]
    split
    · next hempty =>
      rw [List.isEmpty_iff] at hempty
      rw [bucket, Dict.getD, Dict.lookup_erase_if, hempty]
      split <;> rfl
    · rw [bucket, Dict.getD, Dict.lookup_insert_if]
      split <;> rfl

end Index

inductive BucketKey
  | channelKind (communityId : CommunityId) (key : IndexKey)
  | channelWildcard (communityId : CommunityId) (channelId : Uuid)
  | globalKind (communityId : CommunityId) (kind : Kind)
  | globalPKind (key : GlobalPKindIndexKey)
  | globalWildcard (communityId : CommunityId)
  deriving DecidableEq

def filedUnder (communityId : CommunityId) (filters : List Filter) :
    SubscriptionScope → List BucketKey
  | .channels channelIds => channelIds.flatMap fun chId =>
    match extractKindsFromFilters filters with
    | none => [.channelWildcard communityId chId]
    | some kinds => kinds.map fun kind => .channelKind communityId ⟨chId, kind⟩
  | .global =>
    match extractGlobalPKindIndexKeys communityId filters with
    | some keys => keys.map .globalPKind
    | none =>
      match extractKindsFromFilters filters with
      | none => [.globalWildcard communityId]
      | some kinds => kinds.map (.globalKind communityId)

def SubEntry.keys (e : SubEntry) : List BucketKey := filedUnder e.communityId e.filters e.scope

def probed (communityId : CommunityId) (event : StoredEvent) : List BucketKey :=
  match event.channelId with
  | some channelId =>
    [.channelKind communityId ⟨channelId, event.event.kind⟩, .channelWildcard communityId channelId]
  | none =>
    ((eventPTagValues event).map fun p => .globalPKind ⟨communityId, event.event.kind, p⟩) ++
      [.globalKind communityId event.event.kind, .globalWildcard communityId]

namespace SubscriptionRegistry

variable (r : SubscriptionRegistry)

def bucket : BucketKey → List Subscriber
  | .channelKind c key => Index.bucket r.channelKindIndex (c, key)
  | .channelWildcard c chId => Index.bucket r.channelWildcardIndex (c, chId)
  | .globalKind c kind => Index.bucket r.globalKindIndex (c, kind)
  | .globalPKind key => Index.bucket r.globalPKindIndex key
  | .globalWildcard c => Index.bucket r.globalWildcardIndex c

def fileUnder (who : Subscriber) : BucketKey → SubscriptionRegistry
  | .channelKind c key => { r with channelKindIndex := Index.file r.channelKindIndex (c, key) who }
  | .channelWildcard c chId =>
    { r with channelWildcardIndex := Index.file r.channelWildcardIndex (c, chId) who }
  | .globalKind c kind => { r with globalKindIndex := Index.file r.globalKindIndex (c, kind) who }
  | .globalPKind key => { r with globalPKindIndex := Index.file r.globalPKindIndex key who }
  | .globalWildcard c => { r with globalWildcardIndex := Index.file r.globalWildcardIndex c who }

def unfileUnder (who : Subscriber) : BucketKey → SubscriptionRegistry
  | .channelKind c key => { r with channelKindIndex := Index.unfile r.channelKindIndex (c, key) who }
  | .channelWildcard c chId =>
    { r with channelWildcardIndex := Index.unfile r.channelWildcardIndex (c, chId) who }
  | .globalKind c kind => { r with globalKindIndex := Index.unfile r.globalKindIndex (c, kind) who }
  | .globalPKind key => { r with globalPKindIndex := Index.unfile r.globalPKindIndex key who }
  | .globalWildcard c => { r with globalWildcardIndex := Index.unfile r.globalWildcardIndex c who }

@[simp] theorem subs_fileUnder (who : Subscriber) (k : BucketKey) :
    (r.fileUnder who k).subs = r.subs := by cases k <;> rfl

@[simp] theorem subs_unfileUnder (who : Subscriber) (k : BucketKey) :
    (r.unfileUnder who k).subs = r.subs := by cases k <;> rfl

theorem bucket_fileUnder (who : Subscriber) (k k' : BucketKey) :
    (r.fileUnder who k).bucket k' = if k' = k then r.bucket k ++ [who] else r.bucket k' := by
  cases k <;> cases k' <;> simp [fileUnder, bucket, Index.bucket_file]

theorem bucket_unfileUnder (who : Subscriber) (k k' : BucketKey) :
    (r.unfileUnder who k).bucket k' =
      if k' = k then (r.bucket k).filter (fun e => !decide (e = who)) else r.bucket k' := by
  cases k <;> cases k' <;> simp [unfileUnder, bucket, Index.bucket_unfile]

theorem addToIndex_eq (who : Subscriber) (filters : List Filter) (c : CommunityId)
    (scope : SubscriptionScope) :
    r.addToIndex who filters c scope =
      (filedUnder c filters scope).foldl (fun r k => r.fileUnder who k) r := by
  cases scope with
  | channels ids =>
    simp only [addToIndex, filedUnder, List.foldl_flatMap]
    congr 1
    funext r chId
    cases extractKindsFromFilters filters with
    | none => rfl
    | some kinds => cases kinds <;> simp only [List.foldl_map] <;> rfl
  | global =>
    simp only [addToIndex, filedUnder]
    cases extractGlobalPKindIndexKeys c filters with
    | some keys => simp only [List.foldl_map]; rfl
    | none =>
      cases extractKindsFromFilters filters with
      | none => rfl
      | some kinds => cases kinds <;> simp only [List.foldl_map] <;> rfl

theorem removeFromIndex_eq (who : Subscriber) (filters : List Filter) (c : CommunityId)
    (scope : SubscriptionScope) :
    r.removeFromIndex who filters c scope =
      (filedUnder c filters scope).foldl (fun r k => r.unfileUnder who k) r := by
  cases scope with
  | channels ids =>
    simp only [removeFromIndex, filedUnder, List.foldl_flatMap]
    congr 1
    funext r chId
    cases extractKindsFromFilters filters with
    | none => rfl
    | some kinds => cases kinds <;> simp only [List.foldl_map] <;> rfl
  | global =>
    simp only [removeFromIndex, filedUnder]
    cases extractGlobalPKindIndexKeys c filters with
    | some keys => simp only [List.foldl_map]; rfl
    | none =>
      cases extractKindsFromFilters filters with
      | none => rfl
      | some kinds => cases kinds <;> simp only [List.foldl_map] <;> rfl

theorem fanOutScoped_eq (c : CommunityId) (event : StoredEvent) :
    r.fanOutScoped c event =
      ((probed c event).flatMap r.bucket).foldl (r.pushMatch c event) [] := by
  unfold fanOutScoped probed
  cases event.channelId with
  | some chId => simp [List.foldl_append, bucket]
  | none => simp [List.foldl_append, List.foldl_flatMap, List.foldl_map, bucket]

theorem mem_bucket_foldl_fileUnder (who : Subscriber) (ks : List BucketKey) (x : Subscriber)
    (k : BucketKey) :
    x ∈ (ks.foldl (fun r k => r.fileUnder who k) r).bucket k ↔
      x ∈ r.bucket k ∨ (x = who ∧ k ∈ ks) := by
  induction ks generalizing r with
  | nil => simp
  | cons k₀ ks ih =>
    rw [List.foldl_cons, ih, bucket_fileUnder, List.mem_cons]
    split
    · next h => subst h; simp; tauto
    · next h => simp [h]

theorem mem_bucket_foldl_unfileUnder (who : Subscriber) (ks : List BucketKey) (x : Subscriber)
    (k : BucketKey) :
    x ∈ (ks.foldl (fun r k => r.unfileUnder who k) r).bucket k ↔
      x ∈ r.bucket k ∧ ¬(x = who ∧ k ∈ ks) := by
  induction ks generalizing r with
  | nil => simp
  | cons k₀ ks ih =>
    rw [List.foldl_cons, ih, bucket_unfileUnder, List.mem_cons]
    split
    · next h =>
      subst h
      simp only [List.mem_filter, Bool.not_eq_true', decide_eq_false_iff_not]
      tauto
    · next h => simp [h]

theorem mem_bucket_addToIndex (who : Subscriber) (filters : List Filter) (c : CommunityId)
    (scope : SubscriptionScope) (x : Subscriber) (k : BucketKey) :
    x ∈ (r.addToIndex who filters c scope).bucket k ↔
      x ∈ r.bucket k ∨ (x = who ∧ k ∈ filedUnder c filters scope) := by
  rw [addToIndex_eq, mem_bucket_foldl_fileUnder]

theorem mem_bucket_removeFromIndex (who : Subscriber) (filters : List Filter) (c : CommunityId)
    (scope : SubscriptionScope) (x : Subscriber) (k : BucketKey) :
    x ∈ (r.removeFromIndex who filters c scope).bucket k ↔
      x ∈ r.bucket k ∧ ¬(x = who ∧ k ∈ filedUnder c filters scope) := by
  rw [removeFromIndex_eq, mem_bucket_foldl_unfileUnder]

@[simp] theorem subs_addToIndex (who : Subscriber) (filters : List Filter) (c : CommunityId)
    (scope : SubscriptionScope) : (r.addToIndex who filters c scope).subs = r.subs := by
  rw [addToIndex_eq]
  induction filedUnder c filters scope generalizing r with
  | nil => rfl
  | cons k ks ih => rw [List.foldl_cons, ih, subs_fileUnder]

@[simp] theorem subs_removeFromIndex (who : Subscriber) (filters : List Filter) (c : CommunityId)
    (scope : SubscriptionScope) : (r.removeFromIndex who filters c scope).subs = r.subs := by
  rw [removeFromIndex_eq]
  induction filedUnder c filters scope generalizing r with
  | nil => rfl
  | cons k ks ih => rw [List.foldl_cons, ih, subs_unfileUnder]

@[simp] theorem bucket_with_subs (subs : Dict ConnId (Dict SubId SubEntry)) (k : BucketKey) :
    ({ r with subs := subs } : SubscriptionRegistry).bucket k = r.bucket k := by cases k <;> rfl

theorem getEntry_insert (connId : ConnId) (connSubs : Dict SubId SubEntry) (who : Subscriber) :
    ({ r with subs := r.subs.insert connId connSubs } : SubscriptionRegistry).getEntry who =
      if who.1 = connId then connSubs.lookup who.2 else r.getEntry who := by
  simp only [getEntry, Dict.lookup_insert_if]
  split <;> rfl

theorem getEntry_of_lookup {connSubs : Dict SubId SubEntry} {connId : ConnId}
    (h : r.subs.lookup connId = some connSubs) (subId : SubId) :
    r.getEntry (connId, subId) = connSubs.lookup subId := by simp [getEntry, h]

theorem getEntry_congr {r r' : SubscriptionRegistry} (h : r'.subs = r.subs) (who : Subscriber) :
    r'.getEntry who = r.getEntry who := by rw [getEntry, getEntry, h]

def Indexed : Prop :=
  ∀ who k, who ∈ r.bucket k ↔ ∃ entry, r.getEntry who = some entry ∧ k ∈ entry.keys

theorem indexed_new : new.Indexed := by
  intro who k
  cases k <;> simp [new, bucket, Index.bucket, Dict.getD, getEntry]

theorem Indexed.drop {r r' : SubscriptionRegistry} {who : Subscriber} {entry : SubEntry}
    (h : r.Indexed) (hentry : r.getEntry who = some entry)
    (hget : ∀ x, r'.getEntry x = if x = who then none else r.getEntry x)
    (hbucket : ∀ x k, x ∈ r'.bucket k ↔ x ∈ r.bucket k ∧ ¬(x = who ∧ k ∈ entry.keys)) :
    r'.Indexed := by
  intro x k
  rw [hbucket, h x k, hget]
  by_cases hx : x = who
  · subst hx
    simp [hentry]
  · simp [hx]

theorem getEntry_removeSubscription (connId : ConnId) (subId : SubId) (who : Subscriber) :
    (r.removeSubscription connId subId).2.getEntry who =
      if who = (connId, subId) then none else r.getEntry who := by
  obtain ⟨c, s⟩ := who
  unfold removeSubscription
  split
  · next h =>
    simp only [Prod.mk.injEq]
    split
    · next he => obtain ⟨rfl, rfl⟩ := he; simp [getEntry, h]
    · rfl
  · next connSubs h =>
    split
    · next hs =>
      simp only [Prod.mk.injEq]
      split
      · next he => obtain ⟨rfl, rfl⟩ := he; rw [getEntry_of_lookup r h, hs]
      · rfl
    · next entry hs =>
      rw [getEntry_congr (subs_removeFromIndex _ _ _ _ _), getEntry_insert, Dict.lookup_erase_if]
      by_cases hc : c = connId
      · subst hc
        simp [getEntry_of_lookup r h]
      · simp [hc]

theorem Indexed.removeSubscription {r : SubscriptionRegistry} (h : r.Indexed) (connId : ConnId)
    (subId : SubId) : (r.removeSubscription connId subId).2.Indexed := by
  cases hentry : r.getEntry (connId, subId) with
  | none =>
    have heq : (r.removeSubscription connId subId).2 = r := by
      simp only [getEntry, Option.bind_eq_none_iff] at hentry
      unfold SubscriptionRegistry.removeSubscription
      split
      · rfl
      · next connSubs hc => simp [hentry connSubs hc]
    rw [heq]
    exact h
  | some entry =>
    refine h.drop hentry (getEntry_removeSubscription r connId subId) ?_
    intro x k
    simp only [getEntry, Option.bind_eq_some_iff] at hentry
    obtain ⟨connSubs, hc, hs⟩ := hentry
    simp only [SubscriptionRegistry.removeSubscription, hc, hs, mem_bucket_removeFromIndex,
      bucket_with_subs]
    rfl

theorem getEntry_registerWithScope (c : CommunityId) (connId : ConnId) (subId : SubId)
    (filters : List Filter) (scope : SubscriptionScope) (who : Subscriber) :
    (r.registerWithScope c connId subId filters scope).2.getEntry who =
      if who = (connId, subId) then some ⟨filters, c, scope⟩ else r.getEntry who := by
  have hrest := getEntry_removeSubscription r connId subId who
  obtain ⟨c', s⟩ := who
  simp only [registerWithScope]
  rw [getEntry_congr (subs_addToIndex _ _ _ _ _), getEntry_insert, Dict.lookup_insert_if]
  simp only [Prod.mk.injEq] at hrest ⊢
  by_cases hc : c' = connId
  · subst hc
    by_cases hs : s = subId
    · simp [hs]
    · simp only [hs, and_false, if_false, if_true] at hrest ⊢
      rw [← hrest, getEntry, Dict.getD]
      cases (r.removeSubscription c' subId).2.subs.lookup c' <;> rfl
  · simpa [hc] using hrest

theorem Indexed.registerWithScope {r : SubscriptionRegistry} (h : r.Indexed) (c : CommunityId)
    (connId : ConnId) (subId : SubId) (filters : List Filter) (scope : SubscriptionScope) :
    (r.registerWithScope c connId subId filters scope).2.Indexed := by
  intro who k
  rw [getEntry_registerWithScope]
  simp only [SubscriptionRegistry.registerWithScope]
  rw [mem_bucket_addToIndex, bucket_with_subs, h.removeSubscription connId subId who k,
    getEntry_removeSubscription]
  by_cases hw : who = (connId, subId)
  · simp [hw, SubEntry.keys]
  · simp [hw]

theorem removeConnection_fold (connId : ConnId) (entries : List (Σ _ : SubId, SubEntry))
    (acc : List RemovedSubscription × SubscriptionRegistry) :
    let out := entries.foldl
      (fun (acc : List RemovedSubscription × SubscriptionRegistry) entry =>
        (acc.1 ++ [⟨entry.2.communityId, entry.2.scope⟩],
          acc.2.removeFromIndex (connId, entry.1) entry.2.filters entry.2.communityId entry.2.scope))
      acc
    out.2.subs = acc.2.subs ∧ ∀ x k, x ∈ out.2.bucket k ↔
      x ∈ acc.2.bucket k ∧ ¬∃ entry ∈ entries, x = (connId, entry.1) ∧ k ∈ entry.2.keys := by
  induction entries generalizing acc with
  | nil => simp
  | cons entry entries ih =>
    obtain ⟨hsubs, hbucket⟩ := ih (acc.1 ++ [⟨entry.2.communityId, entry.2.scope⟩],
      acc.2.removeFromIndex (connId, entry.1) entry.2.filters entry.2.communityId entry.2.scope)
    refine ⟨by rw [List.foldl_cons, hsubs, subs_removeFromIndex], fun x k => ?_⟩
    rw [List.foldl_cons, hbucket, mem_bucket_removeFromIndex]
    simp only [List.mem_cons, exists_eq_or_imp, SubEntry.keys, not_or, and_assoc]

theorem Indexed.removeConnection {r : SubscriptionRegistry} (h : r.Indexed)
    (order : IterOrder (Σ _ : SubId, SubEntry)) (connId : ConnId) :
    (r.removeConnection order connId).2.Indexed := by
  cases hc : r.subs.lookup connId with
  | none => simpa [SubscriptionRegistry.removeConnection, hc] using h
  | some connSubs =>
    simp only [SubscriptionRegistry.removeConnection, hc]
    obtain ⟨hsubs, hbucket⟩ := removeConnection_fold connId (order.order connSubs.entries)
      ([], { r with subs := r.subs.erase connId })
    intro x k
    rw [hbucket, getEntry_congr hsubs, bucket_with_subs, h x k]
    obtain ⟨c, s⟩ := x
    simp only [IterOrder.mem_order, Prod.mk.injEq, getEntry, Dict.lookup_erase_if]
    by_cases he : c = connId
    · subst he
      -- Everything this connection had was in `connSubs`, so all of it was unfiled.
      simp only [hc, if_true, Option.bind_some, Option.bind_none, reduceCtorEq, false_and,
        exists_false, iff_false, not_and, not_not]
      rintro ⟨entry, hs, hk⟩
      exact ⟨⟨s, entry⟩, (Dict.mem_lookup_entries _ _ _).1 hs, ⟨trivial, rfl⟩, hk⟩
    · simp [he]

theorem mem_filedUnder_channels_filter (c : CommunityId) (filters : List Filter) (ids : List Uuid)
    (chId : Uuid) (k : BucketKey) :
    k ∈ filedUnder c filters (.channels (ids.filter fun i => !decide (i = chId))) ↔
      k ∈ filedUnder c filters (.channels ids) ∧ k ∉ filedUnder c filters (.channels [chId]) := by
  cases hk : extractKindsFromFilters filters with
  | none =>
    simp only [filedUnder, hk, List.mem_flatMap, List.mem_filter, List.mem_singleton,
      Bool.not_eq_true', decide_eq_false_iff_not]
    grind
  | some kinds =>
    simp only [filedUnder, hk, List.mem_flatMap, List.mem_filter, List.mem_singleton,
      Bool.not_eq_true', decide_eq_false_iff_not, List.mem_map]
    grind

theorem removeChannelFrom_of_not_channels {c : CommunityId} {connId : ConnId} {chId : Uuid}
    {subId : SubId} (h : ¬∃ entry ids, r.getEntry (connId, subId) = some entry ∧
      entry.scope = .channels ids) : (r.removeChannelFrom c connId chId subId).2 = r := by
  unfold removeChannelFrom
  cases hc : r.subs.lookup connId with
  | none => rfl
  | some connSubs =>
    cases hs : connSubs.lookup subId with
    | none => simp only [hs]
    | some entry =>
      have hentry := getEntry_of_lookup r hc subId
      rw [hs] at hentry
      cases hscope : entry.scope with
      | global => simp only [hs, hscope]
      | channels ids => exact absurd ⟨entry, ids, hentry, hscope⟩ h

section ChannelRound

variable {c : CommunityId} {connId : ConnId} {subId : SubId} {entry : SubEntry} {ids : List Uuid}
  (chId : Uuid) (hentry : r.getEntry (connId, subId) = some entry)
  (hscope : entry.scope = .channels ids)
include hentry hscope

theorem getEntry_removeChannelFrom (who : Subscriber) :
    (r.removeChannelFrom c connId chId subId).2.getEntry who =
      if who = (connId, subId) then
        if (ids.filter fun i => !decide (i = chId)).isEmpty then none
        else some { entry with scope := .channels (ids.filter fun i => !decide (i = chId)) }
      else r.getEntry who := by
  obtain ⟨c', s⟩ := who
  simp only [getEntry, Option.bind_eq_some_iff] at hentry
  obtain ⟨connSubs, hc, hs⟩ := hentry
  simp only [removeChannelFrom, hc, hs, hscope, getEntry, subs_removeFromIndex, Prod.mk.injEq,
    Dict.lookup_insert_if]
  by_cases hc' : c' = connId
  · subst hc'
    by_cases hs' : s = subId
    · subst hs'
      simp only [if_true, and_self, Option.bind_some]
      split <;> simp
    · simp only [if_true, hs', and_false, if_false, Option.bind_some, hc]
      split <;> simp [hs']
  · simp [hc']

theorem mem_bucket_removeChannelFrom (x : Subscriber) (k : BucketKey) :
    x ∈ (r.removeChannelFrom c connId chId subId).2.bucket k ↔
      x ∈ r.bucket k ∧
        ¬(x = (connId, subId) ∧ k ∈ filedUnder c entry.filters (.channels [chId])) := by
  simp only [getEntry, Option.bind_eq_some_iff] at hentry
  obtain ⟨connSubs, hc, hs⟩ := hentry
  simp only [removeChannelFrom, hc, hs, hscope, bucket_with_subs]
  exact mem_bucket_removeFromIndex _ _ _ _ _ _ _

end ChannelRound

theorem Indexed.removeChannelFrom {r : SubscriptionRegistry} (h : r.Indexed) {c : CommunityId}
    {connId : ConnId} {subId : SubId} (chId : Uuid)
    (hc : ∀ entry, r.getEntry (connId, subId) = some entry → entry.communityId = c) :
    (r.removeChannelFrom c connId chId subId).2.Indexed := by
  by_cases hch : ∃ entry ids, r.getEntry (connId, subId) = some entry ∧ entry.scope = .channels ids
  · obtain ⟨entry, ids, hentry, hscope⟩ := hch
    obtain rfl := hc entry hentry
    intro x k
    rw [mem_bucket_removeChannelFrom r chId hentry hscope, h x k,
      getEntry_removeChannelFrom r chId hentry hscope]
    by_cases hx : x = (connId, subId)
    · subst hx
      have hkept := mem_filedUnder_channels_filter entry.communityId entry.filters ids chId k
      simp only [hentry, true_and, if_true, Option.some.injEq, exists_eq_left']
      rw [SubEntry.keys, hscope, ← hkept]
      split
      · next hempty =>
        rw [List.isEmpty_iff] at hempty
        simp [hempty, filedUnder]
      · simp [SubEntry.keys]
    · simp [hx]
  · rw [removeChannelFrom_of_not_channels r hch]
    exact h

theorem communityId_removeChannelFrom {c : CommunityId} {connId : ConnId} {chId : Uuid}
    {subId : SubId} {who : Subscriber} {entry : SubEntry}
    (h : (r.removeChannelFrom c connId chId subId).2.getEntry who = some entry) :
    ∃ before, r.getEntry who = some before ∧ before.communityId = entry.communityId := by
  by_cases hch : ∃ entry ids, r.getEntry (connId, subId) = some entry ∧ entry.scope = .channels ids
  · obtain ⟨before, ids, hbefore, hscope⟩ := hch
    rw [getEntry_removeChannelFrom r chId hbefore hscope] at h
    split at h
    · next hwho =>
      subst hwho
      split at h
      · cases h
      · obtain rfl := Option.some.inj h
        exact ⟨before, hbefore, rfl⟩
    · exact ⟨entry, h, rfl⟩
  · rw [removeChannelFrom_of_not_channels r hch] at h
    exact ⟨entry, h, rfl⟩

theorem Indexed.removeChannelFold {r : SubscriptionRegistry} {c : CommunityId} {connId : ConnId}
    (chId : Uuid) (subIds : List SubId) (updates : List ChannelSubscriptionUpdate) (h : r.Indexed)
    (hc : ∀ subId ∈ subIds, ∀ entry, r.getEntry (connId, subId) = some entry →
      entry.communityId = c) :
    (subIds.foldl
      (fun (acc : List ChannelSubscriptionUpdate × SubscriptionRegistry) subId =>
        let (updates, r) := acc.2.removeChannelFrom c connId chId subId
        (acc.1 ++ updates, r))
      (updates, r)).2.Indexed := by
  induction subIds generalizing r updates with
  | nil => exact h
  | cons subId subIds ih =>
    rw [List.foldl_cons]
    refine ih _ (h.removeChannelFrom chId (hc subId List.mem_cons_self)) ?_
    intro subId' hmem entry hentry
    obtain ⟨before, hb, hcomm⟩ := communityId_removeChannelFrom r hentry
    rw [← hcomm]
    exact hc subId' (List.mem_cons_of_mem _ hmem) before hb

theorem Indexed.removeChannelSubscriptionsScoped {r : SubscriptionRegistry} (h : r.Indexed)
    (order : IterOrder (Σ _ : SubId, SubEntry)) (c : CommunityId) (connId : ConnId) (chId : Uuid) :
    (r.removeChannelSubscriptionsScoped order c connId chId).2.Indexed := by
  refine h.removeChannelFold chId _ [] ?_
  intro subId hmem entry hentry
  cases hs : r.subs.lookup connId with
  | none => simp [getEntry, hs] at hentry
  | some connSubs =>
    rw [getEntry_of_lookup r hs] at hentry
    simp only [hs, List.mem_map, List.mem_filter, Bool.and_eq_true, decide_eq_true_eq,
      IterOrder.mem_order] at hmem
    obtain ⟨⟨_, listed⟩, ⟨hin, hcomm, _⟩, rfl⟩ := hmem
    rw [(Dict.mem_lookup_entries _ _ _).2 hin] at hentry
    exact (congrArg SubEntry.communityId (Option.some.inj hentry)).symm.trans hcomm

end SubscriptionRegistry

end Colony.Relay
