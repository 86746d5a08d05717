import Colony.Defs.Core.Filter

namespace Colony.Relay

open Colony.Data Colony.Core

abbrev ConnId := Uuid
abbrev SubId := String

inductive SubscriptionScope
  | global
  | channels (ids : List Uuid)
  deriving DecidableEq

def SubscriptionScope.matchesChannel : SubscriptionScope → Option Uuid → Bool
  | .global, none => true
  | .channels ids, some channelId => ids.contains channelId
  | _, _ => false

def SubscriptionScope.channelIds : SubscriptionScope → List Uuid
  | .global => []
  | .channels ids => ids

structure SubEntry where
  filters : List Filter
  communityId : CommunityId
  scope : SubscriptionScope

structure IndexKey where
  channelId : Uuid
  kind : Kind
  deriving DecidableEq

structure GlobalPKindIndexKey where
  communityId : CommunityId
  kind : Kind
  p : String
  deriving DecidableEq

structure RemovedSubscription where
  communityId : CommunityId
  scope : SubscriptionScope
  deriving DecidableEq

structure ChannelSubscriptionUpdate where
  subId : SubId
  removed : Bool
  deriving DecidableEq

abbrev Subscriber := ConnId × SubId

abbrev Index (K : Type) := Dict K (List Subscriber)

def Index.bucket [DecidableEq K] (m : Index K) (k : K) : List Subscriber := Dict.getD m k []

def Index.file [DecidableEq K] (m : Index K) (k : K) (who : Subscriber) : Index K :=
  m.insert k (Index.bucket m k ++ [who])

/-- Drop every entry of one subscriber from a bucket, and the bucket when that empties it. -/
def Index.unfile [DecidableEq K] (m : Index K) (k : K) (who : Subscriber) : Index K :=
  match m.lookup k with
  | none => m
  | some entries =>
    let kept := entries.filter (fun e => !decide (e = who))
    if kept.isEmpty then m.erase k else m.insert k kept

structure SubscriptionRegistry where
  subs : Dict ConnId (Dict SubId SubEntry)
  channelKindIndex : Index (CommunityId × IndexKey)
  channelWildcardIndex : Index (CommunityId × Uuid)
  globalKindIndex : Index (CommunityId × Kind)
  globalPKindIndex : Index GlobalPKindIndexKey
  globalWildcardIndex : Index CommunityId

namespace SubscriptionRegistry

def new : SubscriptionRegistry := ⟨∅, ∅, ∅, ∅, ∅, ∅⟩

end SubscriptionRegistry

def extractKindsFromFilters (filters : List Filter) : Option (List Kind) :=
  filters.foldlM (fun kinds f => f.kinds.map fun filterKinds => filterKinds.foldl pushNew kinds) []

def extractGlobalPKindIndexKeys (communityId : CommunityId) (filters : List Filter) :
    Option (List GlobalPKindIndexKey) :=
  filters.foldlM (fun keys f =>
    match f.kinds with
    | none => none
    | some [] => some keys
    | some kinds =>
      match f.genericTags.lookup pTag with
      | none => none
      | some [] => none
      | some pValues =>
        some ((kinds.flatMap fun kind => pValues.map fun p => ⟨communityId, kind, p⟩).foldl
          pushNew keys)) []

def eventPTagValues (event : StoredEvent) : List String :=
  ((event.event.tags.filter fun t => t.kind == "p").filterMap Tag.content).foldl pushNew []

namespace SubscriptionRegistry

def removeFromIndex (r : SubscriptionRegistry) (who : Subscriber) (filters : List Filter)
    (communityId : CommunityId) : SubscriptionScope → SubscriptionRegistry
  | .channels channelIds =>
    channelIds.foldl (fun r chId =>
      match extractKindsFromFilters filters with
      | none =>
        { r with channelWildcardIndex := Index.unfile r.channelWildcardIndex (communityId, chId) who }
      -- Subscriptions with only empty kind lists were never indexed.
      | some [] => r
      | some kinds =>
        kinds.foldl (fun r kind =>
          { r with channelKindIndex :=
              Index.unfile r.channelKindIndex (communityId, ⟨chId, kind⟩) who }) r) r
  | .global =>
    match extractGlobalPKindIndexKeys communityId filters with
    | some keys =>
      keys.foldl (fun r key =>
        { r with globalPKindIndex := Index.unfile r.globalPKindIndex key who }) r
    | none =>
      match extractKindsFromFilters filters with
      | none =>
        { r with globalWildcardIndex := Index.unfile r.globalWildcardIndex communityId who }
      | some [] => r
      | some kinds =>
        kinds.foldl (fun r kind =>
          { r with globalKindIndex := Index.unfile r.globalKindIndex (communityId, kind) who }) r

def addToIndex (r : SubscriptionRegistry) (who : Subscriber) (filters : List Filter)
    (communityId : CommunityId) : SubscriptionScope → SubscriptionRegistry
  | .channels channelIds =>
    channelIds.foldl (fun r chId =>
      match extractKindsFromFilters filters with
      | none =>
        { r with channelWildcardIndex := Index.file r.channelWildcardIndex (communityId, chId) who }
      | some [] => r
      | some kinds =>
        kinds.foldl (fun r kind =>
          { r with channelKindIndex :=
              Index.file r.channelKindIndex (communityId, ⟨chId, kind⟩) who }) r) r
  | .global =>
    match extractGlobalPKindIndexKeys communityId filters with
    | some keys =>
      keys.foldl (fun r key =>
        { r with globalPKindIndex := Index.file r.globalPKindIndex key who }) r
    | none =>
      match extractKindsFromFilters filters with
      | none =>
        { r with globalWildcardIndex := Index.file r.globalWildcardIndex communityId who }
      | some [] => r
      | some kinds =>
        kinds.foldl (fun r kind =>
          { r with globalKindIndex := Index.file r.globalKindIndex (communityId, kind) who }) r

def removeSubscription (r : SubscriptionRegistry) (connId : ConnId) (subId : SubId) :
    Option RemovedSubscription × SubscriptionRegistry :=
  match r.subs.lookup connId with
  | none => (none, r)
  | some connSubs =>
    match connSubs.lookup subId with
    | none => (none, r)
    | some entry =>
      let r := { r with subs := r.subs.insert connId (connSubs.erase subId) }
      (some ⟨entry.communityId, entry.scope⟩,
        r.removeFromIndex (connId, subId) entry.filters entry.communityId entry.scope)

/-- Replaces any subscription of the same connection and id, then files the new one. -/
def registerWithScope (r : SubscriptionRegistry) (communityId : CommunityId) (connId : ConnId)
    (subId : SubId) (filters : List Filter) (scope : SubscriptionScope) :
    Option RemovedSubscription × SubscriptionRegistry :=
  let (removed, r) := r.removeSubscription connId subId
  let connSubs := Dict.getD r.subs connId ∅
  let r := { r with subs := r.subs.insert connId (connSubs.insert subId ⟨filters, communityId, scope⟩) }
  (removed, r.addToIndex (connId, subId) filters communityId scope)

def removeConnection (r : SubscriptionRegistry) (order : IterOrder (Σ _ : SubId, SubEntry))
    (connId : ConnId) : List RemovedSubscription × SubscriptionRegistry :=
  match r.subs.lookup connId with
  | none => ([], r)
  | some connSubs =>
    (order.order connSubs.entries).foldl
      (fun (acc : List RemovedSubscription × SubscriptionRegistry) entry =>
        (acc.1 ++ [⟨entry.2.communityId, entry.2.scope⟩],
          acc.2.removeFromIndex (connId, entry.1) entry.2.filters entry.2.communityId entry.2.scope))
      ([], { r with subs := r.subs.erase connId })

/-- One round of `remove_channel_subscriptions_scoped`: shrink the scope of `subId`. -/
def removeChannelFrom (r : SubscriptionRegistry) (communityId : CommunityId) (connId : ConnId)
    (channelId : Uuid) (subId : SubId) : List ChannelSubscriptionUpdate × SubscriptionRegistry :=
  match r.subs.lookup connId with
  | none => ([], r)
  | some connSubs =>
    match connSubs.lookup subId with
    | none => ([], r)
    | some entry =>
      match entry.scope with
      | .global => ([], r)
      | .channels channelIds =>
        let kept := channelIds.filter (fun candidate => !decide (candidate = channelId))
        let removed := kept.isEmpty
        let connSubs := connSubs.insert subId { entry with scope := .channels kept }
        let r := r.removeFromIndex (connId, subId) entry.filters communityId (.channels [channelId])
        let connSubs := if removed then connSubs.erase subId else connSubs
        ([⟨subId, removed⟩], { r with subs := r.subs.insert connId connSubs })

def removeChannelSubscriptionsScoped (r : SubscriptionRegistry)
    (order : IterOrder (Σ _ : SubId, SubEntry)) (communityId : CommunityId) (connId : ConnId)
    (channelId : Uuid) : List ChannelSubscriptionUpdate × SubscriptionRegistry :=
  let subIds := match r.subs.lookup connId with
    | none => []
    | some connSubs =>
      ((order.order connSubs.entries).filter fun (entry : Σ _ : SubId, SubEntry) =>
        decide (entry.2.communityId = communityId) &&
          entry.2.scope.channelIds.contains channelId).map Sigma.fst
  subIds.foldl
    (fun (acc : List ChannelSubscriptionUpdate × SubscriptionRegistry) subId =>
      let (updates, r) := acc.2.removeChannelFrom communityId connId channelId subId
      (acc.1 ++ updates, r))
    ([], r)

def getEntry (r : SubscriptionRegistry) (who : Subscriber) : Option SubEntry :=
  (r.subs.lookup who.1).bind (·.lookup who.2)

def wants (r : SubscriptionRegistry) (communityId : CommunityId) (event : StoredEvent)
    (who : Subscriber) : Bool :=
  match r.getEntry who with
  | none => false
  | some entry =>
    decide (entry.communityId = communityId) && entry.scope.matchesChannel event.channelId &&
      filtersMatch entry.filters event

def pushMatch (r : SubscriptionRegistry) (communityId : CommunityId) (event : StoredEvent)
    (results : List Subscriber) (who : Subscriber) : List Subscriber :=
  if r.wants communityId event who then pushNew results who else results

def fanOutScoped (r : SubscriptionRegistry) (communityId : CommunityId) (event : StoredEvent) :
    List Subscriber :=
  match event.channelId with
  | some channelId =>
    let results := (Index.bucket r.channelKindIndex (communityId, ⟨channelId, event.event.kind⟩)).foldl
      (r.pushMatch communityId event) []
    (Index.bucket r.channelWildcardIndex (communityId, channelId)).foldl
      (r.pushMatch communityId event) results
  | none =>
    let results := (eventPTagValues event).foldl (fun results p =>
      (Index.bucket r.globalPKindIndex ⟨communityId, event.event.kind, p⟩).foldl
        (r.pushMatch communityId event) results) []
    let results := (Index.bucket r.globalKindIndex (communityId, event.event.kind)).foldl
      (r.pushMatch communityId event) results
    (Index.bucket r.globalWildcardIndex communityId).foldl (r.pushMatch communityId event) results

end SubscriptionRegistry

end Colony.Relay
