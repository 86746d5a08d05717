import Colony.Defs.Relay.FanOut

namespace Colony.Relay

open Colony.Data Colony.Core

namespace Index

variable {K : Type} [DecidableEq K] {m : Index K}

def Tight (m : Index K) : Prop := ∀ k, m.lookup k ≠ some []

theorem Tight.file (h : Tight m) (k : K) (who : Subscriber) : Tight (file m k who) := by
  intro k'
  rw [Index.file, Dict.lookup_insert_if]
  split
  · simp
  · exact h k'

theorem Tight.unfile (h : Tight m) (k : K) (who : Subscriber) : Tight (unfile m k who) := by
  unfold Index.unfile
  split
  · exact h
  · next entries _ =>
    intro k'
    simp only
    split
    · rw [Dict.lookup_erase_if]
      split
      · simp
      · exact h k'
    · next hkept =>
      rw [Dict.lookup_insert_if]
      split
      · intro heq
        exact hkept (List.isEmpty_iff.2 (Option.some.inj heq))
      · exact h k'

theorem Tight.eq_empty (h : Tight m) (hbucket : ∀ k, bucket m k = []) : m = ∅ := by
  refine AList.ext (List.eq_nil_iff_forall_not_mem.2 fun e he => h e.1 ?_)
  have hlookup := (Dict.mem_lookup_entries m e.1 e.2).2 he
  rw [hlookup, ← hbucket e.1, bucket, Dict.getD_of_lookup hlookup]

end Index

namespace SubscriptionRegistry

variable {r : SubscriptionRegistry}

structure Tight (r : SubscriptionRegistry) : Prop where
  channelKind : r.channelKindIndex.Tight
  channelWildcard : r.channelWildcardIndex.Tight
  globalKind : r.globalKindIndex.Tight
  globalPKind : r.globalPKindIndex.Tight
  globalWildcard : r.globalWildcardIndex.Tight

theorem Tight.fileUnder (h : r.Tight) (who : Subscriber) (k : BucketKey) : (r.fileUnder who k).Tight := by
  cases k with
  | channelKind c key => exact { h with channelKind := h.channelKind.file _ _ }
  | channelWildcard c chId => exact { h with channelWildcard := h.channelWildcard.file _ _ }
  | globalKind c kind => exact { h with globalKind := h.globalKind.file _ _ }
  | globalPKind key => exact { h with globalPKind := h.globalPKind.file _ _ }
  | globalWildcard c => exact { h with globalWildcard := h.globalWildcard.file _ _ }

theorem Tight.unfileUnder (h : r.Tight) (who : Subscriber) (k : BucketKey) : (r.unfileUnder who k).Tight := by
  cases k with
  | channelKind c key => exact { h with channelKind := h.channelKind.unfile _ _ }
  | channelWildcard c chId => exact { h with channelWildcard := h.channelWildcard.unfile _ _ }
  | globalKind c kind => exact { h with globalKind := h.globalKind.unfile _ _ }
  | globalPKind key => exact { h with globalPKind := h.globalPKind.unfile _ _ }
  | globalWildcard c => exact { h with globalWildcard := h.globalWildcard.unfile _ _ }

def Single (who : Subscriber) (r : SubscriptionRegistry) : Prop := ∀ k, (r.bucket k).count who ≤ 1

theorem Single.unfileUnder {who : Subscriber} (h : Single who r) (gone : Subscriber) (k : BucketKey) :
    Single who (r.unfileUnder gone k) := by
  intro k'
  rw [bucket_unfileUnder]
  split
  · exact (List.filter_sublist.count_le who).trans (h k)
  · exact h k'

theorem Single.fileUnder {who new : Subscriber} {k : BucketKey} (h : Single who r)
    (hnew : new = who → who ∉ r.bucket k) : Single who (r.fileUnder new k) := by
  intro k'
  rw [bucket_fileUnder]
  split
  · rw [List.count_append]
    by_cases hwho : new = who
    · subst hwho
      simp [List.count_eq_zero_of_not_mem (hnew rfl)]
    · have hnone : [new].count who = 0 := List.count_eq_zero_of_not_mem (by simpa using Ne.symm hwho)
      rw [hnone, Nat.add_zero]
      exact h k
  · exact h k'

structure Removable (P : SubscriptionRegistry → Prop) : Prop where
  subs : ∀ r subs, P r → P { r with subs }
  unfile : ∀ r who k, P r → P (r.unfileUnder who k)

section Removals

variable {P : SubscriptionRegistry → Prop} (hP : Removable P)
include hP

theorem Removable.removeFromIndex (h : P r) (who : Subscriber) (filters : List Filter) (c : CommunityId)
    (scope : SubscriptionScope) : P (r.removeFromIndex who filters c scope) := by
  rw [removeFromIndex_eq]
  exact List.foldlRecOn _ _ h fun r hr k _ => hP.unfile r who k hr

theorem Removable.removeSubscription (h : P r) (connId : ConnId) (subId : SubId) :
    P (r.removeSubscription connId subId).2 := by
  unfold SubscriptionRegistry.removeSubscription
  split
  · exact h
  · split
    · exact h
    · exact hP.removeFromIndex (hP.subs _ _ h) _ _ _ _

theorem Removable.removeConnection (h : P r) (order : IterOrder (Σ _ : SubId, SubEntry)) (connId : ConnId) :
    P (r.removeConnection order connId).2 := by
  unfold SubscriptionRegistry.removeConnection
  split
  · exact h
  · refine List.foldlRecOn (motive := fun (acc : List RemovedSubscription × SubscriptionRegistry) => P acc.2) _ _
      (hP.subs _ _ h) fun acc hacc entry _ => ?_
    exact hP.removeFromIndex hacc _ _ _ _

theorem Removable.removeChannelFrom (h : P r) (c : CommunityId) (connId : ConnId) (chId : Uuid)
    (subId : SubId) : P (r.removeChannelFrom c connId chId subId).2 := by
  unfold SubscriptionRegistry.removeChannelFrom
  split
  · exact h
  · split
    · exact h
    · split
      · exact h
      · exact hP.subs _ _ (hP.removeFromIndex h _ _ _ _)

theorem Removable.removeChannelSubscriptionsScoped (h : P r) (order : IterOrder (Σ _ : SubId, SubEntry))
    (c : CommunityId) (connId : ConnId) (chId : Uuid) :
    P (r.removeChannelSubscriptionsScoped order c connId chId).2 := by
  unfold SubscriptionRegistry.removeChannelSubscriptionsScoped
  refine List.foldlRecOn (motive := fun (acc : List ChannelSubscriptionUpdate × SubscriptionRegistry) => P acc.2)
    _ _ h fun acc hacc subId _ => ?_
  exact hP.removeChannelFrom hacc c connId chId subId

end Removals

theorem removable_tight : Removable Tight where
  subs _ _ h := ⟨h.channelKind, h.channelWildcard, h.globalKind, h.globalPKind, h.globalWildcard⟩
  unfile _ who k h := h.unfileUnder who k

theorem removable_single (who : Subscriber) : Removable (Single who) where
  subs _ _ h k := by rw [bucket_with_subs]; exact h k
  unfile _ gone k h := h.unfileUnder gone k

end SubscriptionRegistry

theorem nodup_foldl_pushNew {α : Type} [DecidableEq α] (ys : List α) {xs : List α} (h : xs.Nodup) :
    (ys.foldl pushNew xs).Nodup := List.foldlRecOn ys pushNew h fun _ hxs y _ => nodup_pushNew y hxs

theorem nodup_foldlM {α β : Type} {round : List β → α → Option (List β)}
    (hround : ∀ xs a ys, round xs a = some ys → xs.Nodup → ys.Nodup) {l : List α} {init out : List β}
    (h : l.foldlM round init = some out) (hinit : init.Nodup) : out.Nodup := by
  induction l generalizing init with
  | nil =>
    cases h
    exact hinit
  | cons a l ih =>
    rw [List.foldlM_cons] at h
    obtain ⟨mid, hmid, hrest⟩ := Option.bind_eq_some_iff.1 h
    exact ih hrest (hround init a mid hmid hinit)

theorem nodup_extractKindsFromFilters {filters : List Filter} {kinds : List Kind}
    (h : extractKindsFromFilters filters = some kinds) : kinds.Nodup := by
  refine nodup_foldlM (fun xs f ys hround hxs => ?_) h List.nodup_nil
  obtain ⟨filterKinds, -, rfl⟩ := Option.map_eq_some_iff.1 hround
  exact nodup_foldl_pushNew filterKinds hxs

theorem nodup_extractGlobalPKindIndexKeys {c : CommunityId} {filters : List Filter}
    {keys : List GlobalPKindIndexKey} (h : extractGlobalPKindIndexKeys c filters = some keys) :
    keys.Nodup := by
  refine nodup_foldlM (fun xs f ys hround hxs => ?_) h List.nodup_nil
  split at hround
  · cases hround
  · cases hround
    exact hxs
  · split at hround
    · cases hround
    · cases hround
    · cases hround
      exact nodup_foldl_pushNew _ hxs

theorem nodup_filedUnder (c : CommunityId) (filters : List Filter) {scope : SubscriptionScope}
    (h : scope.channelIds.Nodup) : (filedUnder c filters scope).Nodup := by
  cases scope with
  | channels ids =>
    simp only [filedUnder]
    cases hkinds : extractKindsFromFilters filters with
    | none =>
      refine List.nodup_flatMap.2 ⟨fun _ _ => List.nodup_singleton _, h.imp fun hne k hk hk' => ?_⟩
      simp only [List.mem_singleton] at hk hk'
      cases hk.symm.trans hk'
      exact hne rfl
    | some kinds =>
      refine List.nodup_flatMap.2 ⟨fun chId _ => ?_, h.imp fun hne k hk hk' => ?_⟩
      · exact (nodup_extractKindsFromFilters hkinds).map fun a b hab => by cases hab; rfl
      · obtain ⟨kind, -, hkey⟩ := List.mem_map.1 hk
        obtain ⟨kind', -, hkey'⟩ := List.mem_map.1 hk'
        cases hkey.trans hkey'.symm
        exact hne rfl
  | global =>
    simp only [filedUnder]
    cases hkeys : extractGlobalPKindIndexKeys c filters with
    | some keys => exact (nodup_extractGlobalPKindIndexKeys hkeys).map fun a b hab => by cases hab; rfl
    | none =>
      cases hkinds : extractKindsFromFilters filters with
      | none => exact List.nodup_singleton _
      | some kinds => exact (nodup_extractKindsFromFilters hkinds).map fun a b hab => by cases hab; rfl

namespace SubscriptionRegistry

variable {r : SubscriptionRegistry}

theorem Tight.registerWithScope (h : r.Tight) (c : CommunityId) (connId : ConnId) (subId : SubId)
    (filters : List Filter) (scope : SubscriptionScope) :
    (r.registerWithScope c connId subId filters scope).2.Tight := by
  simp only [SubscriptionRegistry.registerWithScope, addToIndex_eq]
  refine List.foldlRecOn _ _ ?_ fun r hr k _ => hr.fileUnder _ k
  exact removable_tight.subs _ _ (removable_tight.removeSubscription h connId subId)

theorem Single.foldl_fileUnder {who new : Subscriber} {ks : List BucketKey} (h : Single who r)
    (hnew : new = who → ks.Nodup ∧ ∀ k ∈ ks, who ∉ r.bucket k) :
    Single who (ks.foldl (fun r k => r.fileUnder new k) r) := by
  induction ks generalizing r with
  | nil => exact h
  | cons k ks ih =>
    refine ih (h.fileUnder fun hwho => (hnew hwho).2 k List.mem_cons_self) fun hwho => ?_
    obtain ⟨hk, hks⟩ := List.nodup_cons.1 (hnew hwho).1
    refine ⟨hks, fun k' hk' => ?_⟩
    rw [bucket_fileUnder, if_neg]
    · exact (hnew hwho).2 k' (List.mem_cons_of_mem _ hk')
    · rintro rfl
      exact hk hk'

theorem Single.registerWithScope {who : Subscriber} (h : Single who r) (hindexed : r.Indexed)
    (c : CommunityId) (connId : ConnId) (subId : SubId) (filters : List Filter)
    {scope : SubscriptionScope} (hscope : (connId, subId) = who → scope.channelIds.Nodup) :
    Single who (r.registerWithScope c connId subId filters scope).2 := by
  simp only [SubscriptionRegistry.registerWithScope, addToIndex_eq]
  refine Single.foldl_fileUnder ?_ fun hwho => ⟨nodup_filedUnder c filters (hscope hwho), fun k _ => ?_⟩
  · have hremoved := (removable_single who).removeSubscription h connId subId
    exact (removable_single who).subs _ _ hremoved
  · -- The subscription that is replaced was in all its buckets, and left them.
    rw [bucket_with_subs, hindexed.removeSubscription connId subId, getEntry_removeSubscription,
      if_pos hwho.symm]
    simp

/-- The channels of every registration of the subscription are distinct, as those collected from the
filters of a request are. -/
def Op.distinct (who : Subscriber) : Op → Prop
  | .registerWithScope _ connId subId _ scope => (connId, subId) = who → scope.channelIds.Nodup
  | _ => True

theorem Tight.step (h : r.Tight) (op : Op) : (r.step op).Tight := by
  cases op with
  | registerWithScope c connId subId filters scope => exact h.registerWithScope c connId subId filters scope
  | removeSubscription connId subId => exact removable_tight.removeSubscription h connId subId
  | removeConnection order connId => exact removable_tight.removeConnection h order connId
  | removeChannelSubscriptionsScoped order c connId chId =>
    exact removable_tight.removeChannelSubscriptionsScoped h order c connId chId

theorem Single.step {who : Subscriber} (h : Single who r) (hindexed : r.Indexed) {op : Op}
    (hop : op.distinct who) : Single who (r.step op) := by
  cases op with
  | registerWithScope c connId subId filters scope =>
    exact h.registerWithScope hindexed c connId subId filters hop
  | removeSubscription connId subId => exact (removable_single who).removeSubscription h connId subId
  | removeConnection order connId => exact (removable_single who).removeConnection h order connId
  | removeChannelSubscriptionsScoped order c connId chId =>
    exact (removable_single who).removeChannelSubscriptionsScoped h order c connId chId

theorem tight_run (ops : List Op) : (run ops).Tight := by
  refine List.foldlRecOn ops SubscriptionRegistry.step ?_ fun _ h op _ => h.step op
  constructor <;> intro k <;> simp [new]

theorem single_run {ops : List Op} {who : Subscriber} (h : ∀ op ∈ ops, op.distinct who) :
    Single who (run ops) := by
  have hboth : (run ops).Indexed ∧ Single who (run ops) := by
    refine List.foldlRecOn (motive := fun (r : SubscriptionRegistry) => r.Indexed ∧ Single who r) ops
      SubscriptionRegistry.step ⟨indexed_new, ?_⟩ fun r hr op hop => ?_
    · intro k
      cases k <;> exact Nat.zero_le 1
    · exact ⟨hr.1.step op, hr.2.step hr.1 (h op hop)⟩
  exact hboth.2

/-- After every history an index entry is that of a live subscription which its filters file there,
none of a subscription is repeated if the channels of each of its registrations are distinct, and the
indexes are empty once no subscription is left. -/
theorem indexes_hold_subscriptions (ops : List Op) :
    (∀ who k, who ∈ (run ops).bucket k →
      ∃ entry, (run ops).getEntry who = some entry ∧ k ∈ filedUnder entry.communityId entry.filters entry.scope) ∧
    (∀ who, (∀ op ∈ ops, op.distinct who) → ∀ k, ((run ops).bucket k).count who ≤ 1) ∧
    ((∀ who, (run ops).getEntry who = none) →
      (run ops).channelKindIndex = ∅ ∧ (run ops).channelWildcardIndex = ∅ ∧ (run ops).globalKindIndex = ∅ ∧
        (run ops).globalPKindIndex = ∅ ∧ (run ops).globalWildcardIndex = ∅) := by
  refine ⟨fun who k hin => (indexed_run ops who k).1 hin, fun _ => single_run, fun hnone => ?_⟩
  have hempty : ∀ k, (run ops).bucket k = [] := fun k =>
    List.eq_nil_iff_forall_not_mem.2 fun who hin => by
      obtain ⟨entry, hentry, -⟩ := (indexed_run ops who k).1 hin
      rw [hnone who] at hentry
      cases hentry
  have htight := tight_run ops
  exact ⟨htight.channelKind.eq_empty fun k => hempty (.channelKind k.1 k.2),
    htight.channelWildcard.eq_empty fun k => hempty (.channelWildcard k.1 k.2),
    htight.globalKind.eq_empty fun k => hempty (.globalKind k.1 k.2),
    htight.globalPKind.eq_empty fun k => hempty (.globalPKind k),
    htight.globalWildcard.eq_empty fun k => hempty (.globalWildcard k)⟩

def everything : Filter := ⟨none, none, none, none, none, ∅⟩

-- The second subscription names a channel twice, the first one does not.
def twoChannels : List Op :=
  [.registerWithScope ⟨1⟩ ⟨2⟩ "sub" [everything] .global,
    .registerWithScope ⟨1⟩ ⟨2⟩ "sub" [everything] (.channels [⟨3⟩, ⟨4⟩, ⟨5⟩]),
    .registerWithScope ⟨1⟩ ⟨6⟩ "other" [everything] (.channels [⟨4⟩, ⟨4⟩]),
    .removeChannelSubscriptionsScoped IterOrder.stored ⟨1⟩ ⟨2⟩ ⟨5⟩]

theorem indexes_hold_subscriptions_twoChannels :
    (run twoChannels).bucket (.channelWildcard ⟨1⟩ ⟨4⟩) = [(⟨2⟩, "sub"), (⟨6⟩, "other"), (⟨6⟩, "other")] ∧
      ∀ k, ((run twoChannels).bucket k).count (⟨2⟩, "sub") ≤ 1 := by
  refine ⟨by decide +kernel, (indexes_hold_subscriptions twoChannels).2.1 _ ?_⟩
  simp [twoChannels, Op.distinct, SubscriptionScope.channelIds]

theorem channel_twice_filed_twice :
    (run [.registerWithScope ⟨1⟩ ⟨2⟩ "sub" [everything] (.channels [⟨3⟩, ⟨3⟩])]).bucket
      (.channelWildcard ⟨1⟩ ⟨3⟩) = [(⟨2⟩, "sub"), (⟨2⟩, "sub")] := by
  rfl

end SubscriptionRegistry

end Colony.Relay
