import Colony.Defs.Data.Run
import Colony.Defs.ReadState.Json
import Mathlib.Data.List.Sort

namespace Colony.ReadState

open Colony.Core Colony.Data

namespace Contexts

variable (c : Contexts)

def get (key : JsString) : Option Nat := (c.find? fun e => e.1 = key).map Prod.snd

def value (key : JsString) : Nat := (c.get key).getD 0

end Contexts

open Contexts

/-- Dates of the engine: their texts, for the milliseconds they can hold, are read back. -/
structure Dates where
  toISOString : Nat → Option String
  parse : String → Option Int
  toISOString_isSome : ∀ ms, (toISOString ms).isSome ↔ ms ≤ 8640000000000000
  parse_toISOString : ∀ ms text, toISOString ms = some text → text ≠ "" ∧ parse text = some (ms : Int)

structure Stored where
  contexts : List (JsString × String)
  publishableContextIds : List JsString
  contextSourceCreatedAt : Contexts

def isPrunableContextKey (key : JsString) : Bool := isMsg key || isThread key

def readStateHorizonSeconds : Int := 7 * 24 * 60 * 60

def localMaxPrunableContexts : Nat := 1000

def sortNewest (entries : Contexts) : Contexts := entries.insertionSort fun a b => b.2 ≤ a.2

/-- The markers of messages and threads that are within the horizon, as many as are kept. -/
def keptPrunable (contexts : Contexts) (nowUnixSeconds : Int) : Contexts :=
  let prunable := contexts.filter fun e =>
    isPrunableContextKey e.1 && decide (nowUnixSeconds - readStateHorizonSeconds ≤ e.2)
  if localMaxPrunableContexts < prunable.length then
    (sortNewest prunable).take localMaxPrunableContexts
  else prunable

def pruneStaleContexts (contexts : Contexts) (nowUnixSeconds : Int) : Contexts :=
  contexts.filter (fun e => !isPrunableContextKey e.1) ++ keptPrunable contexts nowUnixSeconds

section Store

variable (D : Dates)

def stateOf (pruned : Contexts) : Option (List (JsString × String)) :=
  (pruned.mapM fun e => (D.toISOString (e.2 * 1000)).map fun text => (e.1, text)).map
    (·.filter fun e => e.1 ≠ proto)

def writeStoredReadState (contexts : Contexts) (publishableContextIds : List JsString)
    (contextSourceCreatedAt : Contexts) (nowUnixSeconds : Int) : Option Stored :=
  let pruned := pruneStaleContexts contexts nowUnixSeconds
  (stateOf D pruned).map fun state =>
    { contexts := state
      publishableContextIds := publishableContextIds.filter (· ∈ pruned.keys)
      contextSourceCreatedAt :=
        contextSourceCreatedAt.filter fun e => e.1 ∈ pruned.keys ∧ e.1 ≠ proto }

def localIsoToUnixSeconds (text : String) : Option Int :=
  if text = "" then none else (D.parse text).map (· / 1000)

def mergeStored (contexts : Contexts) (e : JsString × String) : Contexts :=
  match localIsoToUnixSeconds D e.2 with
  | none => contexts
  | some unixSeconds =>
    if (contexts.value e.1 : Int) < unixSeconds then contexts.set e.1 unixSeconds.toNat else contexts

def readContexts (stored : List (JsString × String)) : Contexts := stored.foldl (mergeStored D) []

end Store

structure Parsed where
  dTag : JsString
  clientId : JsString
  contexts : Contexts
  createdAt : Nat

structure RelayEvent where
  id : JsString
  pubkey : JsString
  parsed : Option Parsed

/-- A call of `mergeEvents`: what its two loops have still to parse. -/
structure Merge where
  unmerged : List (Option Parsed)
  unchecked : List (Option Parsed)
  ownBlobsBySlot : List Parsed := []

structure Publish where
  contexts : Contexts
  createdAt : Nat

structure Manager where
  pubkey : JsString
  clientId : JsString
  slotId : JsString
  effectiveState : Contexts
  publishableContextIds : List JsString
  lastPublishedContexts : Contexts := []
  contextSourceCreatedAt : Contexts
  maxFetchedCreatedAt : Nat := 0
  pendingSyncedAdvances : List JsString := []
  recentlyPublishedIds : List JsString := []
  merging : List Merge := []
  parsing : List (Option Parsed) := []
  signing : List Publish := []
  publishing : List Publish := []
  destroyed : Bool := false

namespace Manager

def hydrate (D : Dates) (pubkey clientId slotId : JsString) (stored : Stored) : Manager where
  pubkey
  clientId
  slotId
  effectiveState := readContexts D stored.contexts
  publishableContextIds := stored.publishableContextIds
  contextSourceCreatedAt := stored.contextSourceCreatedAt

variable (s : Manager)

def getOwnTimestamp (contextId : JsString) : Option Nat := s.effectiveState.get contextId

def advanceContext (contextId : JsString) (unixTimestamp : Nat) (publishable : Bool) : Manager :=
  if s.destroyed then s
  else if unixTimestamp ≤ s.effectiveState.value contextId then
    if publishable then
      { s with publishableContextIds := pushNew s.publishableContextIds contextId }
    else s
  else
    { s with
      effectiveState := s.effectiveState.set contextId unixTimestamp
      publishableContextIds :=
        if publishable then pushNew s.publishableContextIds contextId else s.publishableContextIds }

def markContextRead (contextId : JsString) (unixTimestamp now : Nat) : Manager :=
  let s' := s.advanceContext contextId unixTimestamp true
  { s' with contextSourceCreatedAt :=
      s'.contextSourceCreatedAt.set contextId (max now (s'.maxFetchedCreatedAt + 1)) }

def seedContextRead (contextId : JsString) (unixTimestamp : Nat) : Manager :=
  s.advanceContext contextId unixTimestamp false

def applyRemoteContextTimestamp (eventCreatedAt : Nat) (e : JsString × Nat) : Manager × Bool :=
  let next := max (s.effectiveState.value e.1) e.2
  let advanced := next ≠ s.effectiveState.value e.1
  ({ s with
      effectiveState := if advanced then s.effectiveState.set e.1 next else s.effectiveState
      contextSourceCreatedAt :=
        if s.contextSourceCreatedAt.value e.1 < eventCreatedAt then
          s.contextSourceCreatedAt.set e.1 eventCreatedAt
        else s.contextSourceCreatedAt }, advanced)

def mergeContext (eventCreatedAt : Nat) (e : JsString × Nat) : Manager :=
  let (s', advanced) := s.applyRemoteContextTimestamp eventCreatedAt e
  if advanced then
    { s' with
      pendingSyncedAdvances := pushNew s'.pendingSyncedAdvances e.1
      publishableContextIds := pushNew s'.publishableContextIds e.1 }
  else s'

def mergeEvent (p : Parsed) : Manager :=
  p.contexts.foldl (fun s e => s.mergeContext p.createdAt e)
    { s with maxFetchedCreatedAt := max s.maxFetchedCreatedAt p.createdAt }

/-- The newest blob of each slot that is this client's own. -/
def keepOwn (own : List Parsed) (p : Parsed) : List Parsed :=
  if p.clientId = s.clientId then
    match own.find? fun o => o.dTag = p.dTag with
    | none => own ++ [p]
    | some existing =>
      if existing.createdAt < p.createdAt then own.map fun o => if o.dTag = p.dTag then p else o
      else own
  else own

def readStateDTagPrefix : JsString := ascii "read-state:"

def squatted (p : Parsed) : Bool :=
  p.dTag = readStateDTagPrefix ++ s.slotId && p.clientId ≠ s.clientId

-- What an object that is made empty has under these names is a function, or its prototype.
def inheritedKeys : List JsString :=
  proto :: ["constructor", "hasOwnProperty", "isPrototypeOf", "propertyIsEnumerable", "toLocaleString",
    "toString", "valueOf", "__defineGetter__", "__defineSetter__", "__lookupGetter__",
    "__lookupSetter__"].map ascii

def unionContext (union : Contexts) (e : JsString × Nat) : Contexts :=
  match union.get e.1 with
  | none => if e.1 ∈ inheritedKeys then union else union.set e.1 e.2
  | some existing => if existing < e.2 then union.set e.1 e.2 else union

def unionOwn (own : List Parsed) : Manager :=
  if own.isEmpty then s
  else { s with
    publishableContextIds := (own.flatMap fun p => p.contexts.keys).foldl pushNew s.publishableContextIds
    lastPublishedContexts := (own.flatMap Parsed.contexts).foldl unionContext [] }

def mergeEvents (events : List (Option Parsed)) : Manager :=
  if s.destroyed || events.isEmpty then s
  else { s with merging := s.merging ++ [{ unmerged := events, unchecked := events }] }

/-- A merge goes on when an event is parsed; `slotId` is what `generateHex` returns if the slot has
to be left to another client. -/
def mergeParsed (m : Merge) (slotId : JsString) : Manager × Option Merge :=
  match m.unmerged, m.unchecked with
  | some p :: unmerged, _ =>
    (s.mergeEvent p, some { m with unmerged, ownBlobsBySlot := s.keepOwn m.ownBlobsBySlot p })
  | none :: unmerged, _ => (s, some { m with unmerged })
  | [], [] => (s.unionOwn m.ownBlobsBySlot, none)
  | [], parsed :: unchecked =>
    if parsed.any s.squatted then ({ s with slotId }.unionOwn m.ownBlobsBySlot, none)
    else if unchecked.isEmpty then (s.unionOwn m.ownBlobsBySlot, none)
    else (s, some { m with unchecked })

def goOn (index : Nat) (slotId : JsString) : Manager :=
  match s.merging[index]? with
  | none => s
  | some m =>
    if s.destroyed then { s with merging := s.merging.eraseIdx index }
    else
      match s.mergeParsed m slotId with
      | (s', none) => { s' with merging := s.merging.eraseIdx index }
      | (s', some m') => { s' with merging := s.merging.set index m' }

def incomingContext (eventCreatedAt : Nat) (e : JsString × Nat) : Manager :=
  let (s', advanced) := s.applyRemoteContextTimestamp eventCreatedAt e
  { s' with
    pendingSyncedAdvances :=
      if advanced then pushNew s'.pendingSyncedAdvances e.1 else s'.pendingSyncedAdvances
    publishableContextIds := pushNew s'.publishableContextIds e.1 }

/-- An event of the live subscription, up to where it is parsed: an echo is dropped. -/
def handleIncomingEvent (event : RelayEvent) : Manager :=
  if s.destroyed || event.pubkey ≠ s.pubkey then s
  else if event.id ∈ s.recentlyPublishedIds then
    { s with recentlyPublishedIds := s.recentlyPublishedIds.filter (· ≠ event.id) }
  else { s with parsing := s.parsing ++ [event.parsed] }

def incomingParsed (index : Nat) : Manager :=
  match s.parsing[index]? with
  | none => s
  | some parsed =>
    let s' := { s with parsing := s.parsing.eraseIdx index }
    match parsed with
    | none => s'
    | some p =>
      if s'.destroyed then s'
      else p.contexts.foldl (fun s e => s.incomingContext p.createdAt e)
        { s' with maxFetchedCreatedAt := max s'.maxFetchedCreatedAt p.createdAt }

def publishedIdMemory : Nat := 64

def rememberPublishedId (id : JsString) : Manager :=
  let ids := pushNew s.recentlyPublishedIds id
  { s with recentlyPublishedIds := if publishedIdMemory < ids.length then ids.tail else ids }

-- `publishOneSlot`, up to the signing of its event.
def publishOneSlot (contexts : Contexts) (now : Nat) : Manager :=
  { s with signing := s.signing ++ [⟨contexts, max now (s.maxFetchedCreatedAt + 1)⟩] }

def signed (index : Nat) (id : JsString) : Manager :=
  match s.signing[index]? with
  | none => s
  | some publish =>
    { s.rememberPublishedId id with
      signing := s.signing.eraseIdx index
      publishing := s.publishing ++ [publish] }

def accepted (index : Nat) : Manager :=
  match s.publishing[index]? with
  | none => s
  | some publish =>
    let changed := publish.contexts.filter fun e => s.lastPublishedContexts.get e.1 ≠ some e.2
    { s with
      publishing := s.publishing.eraseIdx index
      contextSourceCreatedAt :=
        changed.foldl (fun c e => c.set e.1 publish.createdAt) s.contextSourceCreatedAt
      lastPublishedContexts :=
        publish.contexts.foldl (fun c e => c.assign e.1 e.2) s.lastPublishedContexts
      maxFetchedCreatedAt := max s.maxFetchedCreatedAt publish.createdAt }

inductive Step
  | fetched (events : List (Option Parsed))
  | merges (index : Nat) (slotId : JsString)
  | incoming (event : RelayEvent)
  | parsed (index : Nat)
  | markContextRead (contextId : JsString) (unixTimestamp now : Nat)
  | seedContextRead (contextId : JsString) (unixTimestamp : Nat)
  | publishes (contexts : Contexts) (now : Nat)
  | signed (index : Nat) (id : JsString)
  | accepted (index : Nat)
  -- Before `publish` leaves its extra slots, and before it fills several.
  | resetsPublished
  | destroy

def step : Step → Manager
  | .fetched events => s.mergeEvents events
  | .merges index slotId => s.goOn index slotId
  | .incoming event => s.handleIncomingEvent event
  | .parsed index => s.incomingParsed index
  | .markContextRead contextId unixTimestamp now => s.markContextRead contextId unixTimestamp now
  | .seedContextRead contextId unixTimestamp => s.seedContextRead contextId unixTimestamp
  | .publishes contexts now => s.publishOneSlot contexts now
  | .signed index id => s.signed index id
  | .accepted index => s.accepted index
  | .resetsPublished => { s with lastPublishedContexts := [] }
  | .destroy => { s with destroyed := true }

def timestamps (a : Step) : Contexts :=
  if s.destroyed then []
  else match a with
    | .merges index _ =>
      ((((s.merging[index]?).bind fun m => m.unmerged.head?).join).map Parsed.contexts).getD []
    | .parsed index => (((s.parsing[index]?).join).map Parsed.contexts).getD []
    | .markContextRead contextId unixTimestamp _ => [(contextId, unixTimestamp)]
    | .seedContextRead contextId unixTimestamp => [(contextId, unixTimestamp)]
    | _ => []

def applied (s : Manager) : List Step → Contexts
  | [] => []
  | a :: steps => s.timestamps a ++ (s.step a).applied steps

end Manager

namespace Contexts

def raise (c : Contexts) (e : JsString × Nat) : Contexts :=
  if c.value e.1 < e.2 then c.set e.1 e.2 else c

structure Valid (c : Contexts) : Prop where
  nodup : c.keys.Nodup
  pos : ∀ e ∈ c, 0 < e.2

variable {c : Contexts}

@[simp] theorem get_nil (key : JsString) : get [] key = none := rfl

theorem get_cons (e : JsString × Nat) (c : Contexts) (key : JsString) :
    get (e :: c) key = if e.1 = key then some e.2 else c.get key := by
  by_cases h : e.1 = key <;> simp [get, h]

theorem get_eq_some (h : c.keys.Nodup) {key : JsString} {ts : Nat} :
    c.get key = some ts ↔ (key, ts) ∈ c := by
  induction c with
  | nil => simp
  | cons e c ih =>
    obtain ⟨hkey, hnodup⟩ := List.nodup_cons.1 h
    rw [get_cons, List.mem_cons]
    split_ifs with heq
    · subst heq
      have hnot : (e.1, ts) ∉ c := fun hmem => hkey (List.mem_map.2 ⟨_, hmem, rfl⟩)
      simp [hnot, Prod.ext_iff, eq_comm]
    · rw [ih hnodup]
      exact (or_iff_right fun hsame => heq (congrArg Prod.fst hsame.symm)).symm

theorem keys_set (c : Contexts) (key : JsString) (ts : Nat) :
    (c.set key ts).keys = if key ∈ c.keys then c.keys else c.keys ++ [key] := by
  unfold set
  split
  · rw [keys, List.map_map]
    refine List.map_congr_left fun e _ => ?_
    simp only [Function.comp_apply]
    split_ifs with h
    · exact h.symm
    · rfl
  · simp [keys]

theorem mem_set {key : JsString} {ts : Nat} {e : JsString × Nat} :
    e ∈ c.set key ts ↔ e = (key, ts) ∨ e ∈ c ∧ e.1 ≠ key := by
  unfold set
  split
  next hkey =>
    obtain ⟨old, hold, hkeyEq⟩ := List.mem_map.1 hkey
    constructor
    · intro h
      obtain ⟨e', he', rfl⟩ := List.mem_map.1 h
      split_ifs with hsame
      · exact .inl rfl
      · exact .inr ⟨he', hsame⟩
    · rintro (rfl | ⟨he, hne⟩)
      · exact List.mem_map.2 ⟨old, hold, if_pos hkeyEq⟩
      · exact List.mem_map.2 ⟨e, he, if_neg hne⟩
  next hkey =>
    have hne (he : e ∈ c) : e.1 ≠ key := fun heq => hkey (heq ▸ List.mem_map_of_mem he)
    simp only [List.mem_append, List.mem_singleton, or_comm]
    exact or_congr_left ⟨fun he => ⟨he, hne he⟩, And.left⟩

theorem Valid.set (h : Valid c) {key : JsString} {ts : Nat} (hts : 0 < ts) : Valid (c.set key ts) where
  nodup := by
    rw [keys_set]
    split_ifs with hkey
    · exact h.nodup
    · exact List.nodup_append_comm.1 (List.nodup_cons.2 ⟨hkey, h.nodup⟩)
  pos e he := by
    rcases mem_set.1 he with rfl | ⟨he, -⟩
    · exact hts
    · exact h.pos e he

theorem get_set (h : Valid c) {key : JsString} {ts : Nat} (hts : 0 < ts) (key' : JsString) :
    (c.set key ts).get key' = if key' = key then some ts else c.get key' := by
  ext ts'
  rw [get_eq_some (h.set hts).nodup, mem_set]
  split_ifs with heq
  · simp [heq, eq_comm]
  · simp [heq, get_eq_some h.nodup]

theorem Valid.raise (h : Valid c) (e : JsString × Nat) : Valid (c.raise e) := by
  unfold Contexts.raise
  split_ifs with hlt
  · exact h.set (Nat.zero_lt_of_lt hlt)
  · exact h

theorem value_raise (h : Valid c) (e : JsString × Nat) (key : JsString) :
    (c.raise e).value key = if key = e.1 then max (c.value key) e.2 else c.value key := by
  unfold raise
  split_ifs with hlt heq heq
  · rw [value, get_set h (Nat.zero_lt_of_lt hlt), if_pos heq, heq, Option.getD_some,
      max_eq_right hlt.le]
  · rw [value, get_set h (Nat.zero_lt_of_lt hlt), if_neg heq, value]
  · rw [heq, max_eq_left (not_lt.1 hlt)]
  · rfl

def newest (key : JsString) (entries : Contexts) : Nat :=
  ((entries.filter fun e => e.1 = key).map Prod.snd).foldr max 0

theorem foldl_raise (h : Valid c) (entries : Contexts) : Valid (entries.foldl raise c) ∧
    ∀ key, (entries.foldl raise c).value key = max (c.value key) (newest key entries) := by
  induction entries generalizing c with
  | nil => exact ⟨h, fun key => (max_eq_left (Nat.zero_le _)).symm⟩
  | cons e entries ih =>
    obtain ⟨hvalid, hvalue⟩ := ih (h.raise e)
    refine ⟨hvalid, fun key => ?_⟩
    rw [List.foldl_cons, hvalue, value_raise h]
    by_cases heq : key = e.1
    · simp [newest, heq, max_assoc]
    · simp [newest, heq, Ne.symm heq]

theorem valid_nil : Valid [] := ⟨List.nodup_nil, by simp⟩

def marker (ts : Nat) : Option Nat := if ts = 0 then none else some ts

theorem get_eq_marker (h : Valid c) (key : JsString) : c.get key = marker (c.value key) := by
  cases hget : c.get key with
  | none => simp [marker, value, hget]
  | some ts =>
    have hpos := h.pos _ ((get_eq_some h.nodup).1 hget)
    simp [marker, value, hget, hpos.ne']

end Contexts

def storedTimestamps (D : Dates) (stored : List (JsString × String)) : Contexts :=
  stored.filterMap fun e => (localIsoToUnixSeconds D e.2).map fun unixSeconds => (e.1, unixSeconds.toNat)

theorem foldl_mergeStored (D : Dates) (stored : List (JsString × String)) (c : Contexts) :
    stored.foldl (mergeStored D) c = (storedTimestamps D stored).foldl raise c := by
  induction stored generalizing c with
  | nil => rfl
  | cons e stored ih =>
    rw [List.foldl_cons, ih, mergeStored]
    unfold storedTimestamps
    rw [List.filterMap_cons]
    cases localIsoToUnixSeconds D e.2 with
    | none => rfl
    | some unixSeconds =>
      have hlt : (c.value e.1 : Int) < unixSeconds ↔ c.value e.1 < unixSeconds.toNat := by omega
      simp only [hlt, Option.map_some, List.foldl_cons, raise]

theorem valid_readContexts (D : Dates) (stored : List (JsString × String)) :
    Valid (readContexts D stored) := by
  rw [readContexts, foldl_mergeStored]
  exact (foldl_raise valid_nil _).1

namespace Manager

variable (s : Manager)

theorem effectiveState_advanceContext (contextId : JsString) (unixTimestamp : Nat) (publishable : Bool) :
    (s.advanceContext contextId unixTimestamp publishable).effectiveState =
      if s.destroyed then s.effectiveState else s.effectiveState.raise (contextId, unixTimestamp) := by
  unfold advanceContext raise
  by_cases hd : s.destroyed = true
  · simp [hd]
  · by_cases hle : unixTimestamp ≤ s.effectiveState.value contextId
    · cases publishable <;> simp [hd, hle, not_lt.2 hle]
    · simp [hd, hle, not_le.1 hle]

theorem effectiveState_applyRemote (eventCreatedAt : Nat) (e : JsString × Nat) :
    (s.applyRemoteContextTimestamp eventCreatedAt e).1.effectiveState = s.effectiveState.raise e := by
  unfold applyRemoteContextTimestamp raise
  by_cases hlt : s.effectiveState.value e.1 < e.2
  · simp [hlt, max_eq_right hlt.le, hlt.ne']
  · simp [hlt, max_eq_left (not_lt.1 hlt)]

theorem effectiveState_mergeContext (eventCreatedAt : Nat) (e : JsString × Nat) :
    (s.mergeContext eventCreatedAt e).effectiveState = s.effectiveState.raise e := by
  rw [← s.effectiveState_applyRemote eventCreatedAt e]
  unfold mergeContext
  dsimp only
  split_ifs <;> rfl

theorem effectiveState_incomingContext (eventCreatedAt : Nat) (e : JsString × Nat) :
    (s.incomingContext eventCreatedAt e).effectiveState = s.effectiveState.raise e :=
  s.effectiveState_applyRemote eventCreatedAt e

theorem effectiveState_foldl {f : Manager → JsString × Nat → Manager}
    (hf : ∀ s e, (f s e).effectiveState = s.effectiveState.raise e) (entries : Contexts) :
    (entries.foldl f s).effectiveState = entries.foldl raise s.effectiveState := by
  induction entries generalizing s with
  | nil => rfl
  | cons e entries ih => rw [List.foldl_cons, ih, hf, List.foldl_cons]

theorem effectiveState_unionOwn (own : List Parsed) :
    (s.unionOwn own).effectiveState = s.effectiveState := by
  unfold unionOwn
  split_ifs <;> rfl

theorem effectiveState_mergeParsed (m : Merge) (slotId : JsString) :
    (s.mergeParsed m slotId).1.effectiveState =
      ((m.unmerged.head?.join.map Parsed.contexts).getD []).foldl raise s.effectiveState := by
  rcases m with ⟨_ | ⟨_ | p, unmerged⟩, unchecked, own⟩
  · cases unchecked with
    | nil => exact s.effectiveState_unionOwn own
    | cons parsed unchecked =>
      simp only [mergeParsed]
      split_ifs <;> first | rfl | exact effectiveState_unionOwn _ own
  · rfl
  · exact effectiveState_foldl _ (fun s => s.effectiveState_mergeContext p.createdAt) p.contexts

theorem effectiveState_goOn (index : Nat) (slotId : JsString) :
    (s.goOn index slotId).effectiveState =
      (s.timestamps (.merges index slotId)).foldl raise s.effectiveState := by
  cases hindex : s.merging[index]? with
  | none => simp [goOn, timestamps, hindex]
  | some m =>
    by_cases hd : s.destroyed = true
    · simp [goOn, timestamps, hindex, hd]
    · have hm := s.effectiveState_mergeParsed m slotId
      simp only [goOn, timestamps, hindex, if_neg hd, Option.bind_some]
      rw [← hm]
      split
      · next hparsed => rw [hparsed]
      · next hparsed => rw [hparsed]

theorem effectiveState_step (a : Step) :
    (s.step a).effectiveState = (s.timestamps a).foldl raise s.effectiveState := by
  cases a with
  | fetched events =>
    have hkeep : (s.mergeEvents events).effectiveState = s.effectiveState := by
      unfold mergeEvents
      split_ifs <;> rfl
    simp [step, hkeep, timestamps]
  | merges index slotId => exact s.effectiveState_goOn index slotId
  | incoming event =>
    have hkeep : (s.handleIncomingEvent event).effectiveState = s.effectiveState := by
      unfold handleIncomingEvent
      split_ifs <;> rfl
    simp [step, hkeep, timestamps]
  | parsed index =>
    cases hindex : s.parsing[index]? with
    | none => simp [step, incomingParsed, timestamps, hindex]
    | some parsed =>
      cases parsed with
      | none => simp [step, incomingParsed, timestamps, hindex]
      | some p =>
        by_cases hd : s.destroyed = true
        · simp [step, incomingParsed, timestamps, hindex, hd]
        · simp [step, incomingParsed, timestamps, hindex, hd,
            effectiveState_foldl _ fun s => s.effectiveState_incomingContext p.createdAt]
  | markContextRead contextId unixTimestamp now =>
    by_cases hd : s.destroyed = true <;>
      simp [step, markContextRead, effectiveState_advanceContext, timestamps, hd]
  | seedContextRead contextId unixTimestamp =>
    by_cases hd : s.destroyed = true <;>
      simp [step, seedContextRead, effectiveState_advanceContext, timestamps, hd]
  | publishes contexts now => simp [step, publishOneSlot, timestamps]
  | signed index id =>
    have hkeep : (s.signed index id).effectiveState = s.effectiveState := by
      unfold signed
      split <;> rfl
    simp [step, hkeep, timestamps]
  | accepted index =>
    have hkeep : (s.accepted index).effectiveState = s.effectiveState := by
      unfold accepted
      split <;> rfl
    simp [step, hkeep, timestamps]
  | resetsPublished => simp [step, timestamps]
  | destroy => simp [step, timestamps]

theorem effectiveState_run (steps : List Step) :
    (runFrom step s steps).effectiveState = (s.applied steps).foldl raise s.effectiveState := by
  induction steps generalizing s with
  | nil => rfl
  | cons a steps ih =>
    rw [runFrom_cons, ih, effectiveState_step, applied, List.foldl_append]

theorem valid_run (D : Dates) (pubkey clientId slotId : JsString) (stored : Stored)
    (steps : List Step) :
    Valid (runFrom step (hydrate D pubkey clientId slotId stored) steps).effectiveState := by
  rw [effectiveState_run]
  exact (foldl_raise (valid_readContexts D _) _).1

end Manager

section Prune

variable {c : Contexts} {now : Int}

theorem keptPrunable_subset {e : JsString × Nat} (h : e ∈ keptPrunable c now) :
    e ∈ c ∧ isPrunableContextKey e.1 = true := by
  have hfilter : e ∈ c.filter fun e =>
      isPrunableContextKey e.1 && decide (now - readStateHorizonSeconds ≤ e.2) := by
    unfold keptPrunable at h
    dsimp only at h
    split_ifs at h
    · exact (List.perm_insertionSort _ _).subset (List.mem_of_mem_take h)
    · exact h
  obtain ⟨hmem, hkey⟩ := List.mem_filter.1 hfilter
  exact ⟨hmem, (Bool.and_eq_true_iff.1 hkey).1⟩

theorem mem_prune {e : JsString × Nat} : e ∈ pruneStaleContexts c now ↔
    e ∈ c ∧ isPrunableContextKey e.1 = false ∨ e ∈ keptPrunable c now := by
  simp [pruneStaleContexts]

theorem prune_subset {e : JsString × Nat} (h : e ∈ pruneStaleContexts c now) : e ∈ c := by
  rcases mem_prune.1 h with h | h
  · exact h.1
  · exact (keptPrunable_subset h).1

theorem nodup_keptPrunable (h : c.keys.Nodup) : (keptPrunable c now).keys.Nodup := by
  unfold keptPrunable
  dsimp only
  split_ifs
  · refine ((List.take_sublist _ _).map _).nodup ?_
    refine ((List.perm_insertionSort _ _).map _).nodup_iff.2 ?_
    exact (List.filter_sublist.map _).nodup h
  · exact (List.filter_sublist.map _).nodup h

theorem Contexts.Valid.prune (h : Valid c) : Valid (pruneStaleContexts c now) where
  nodup := by
    rw [pruneStaleContexts, keys, List.map_append]
    refine List.nodup_append'.2 ⟨(List.filter_sublist.map _).nodup h.nodup, ?_, ?_⟩
    · exact nodup_keptPrunable h.nodup
    · intro key hkey hkey'
      obtain ⟨e, he, rfl⟩ := List.mem_map.1 hkey
      obtain ⟨e', he', heq⟩ := List.mem_map.1 hkey'
      have hp := (keptPrunable_subset he').2
      rw [heq] at hp
      simpa [hp] using (List.mem_filter.1 he).2
  pos e he := h.pos e (prune_subset he)

theorem filter_prune : ((pruneStaleContexts c now).filter fun e => isPrunableContextKey e.1) =
    keptPrunable c now := by
  have hchannels : ((c.filter fun e => !isPrunableContextKey e.1).filter fun e =>
      isPrunableContextKey e.1) = [] := by
    simp [List.filter_filter]
  have hkept : ((keptPrunable c now).filter fun e => isPrunableContextKey e.1) = keptPrunable c now :=
    List.filter_eq_self.2 fun e he => (keptPrunable_subset he).2
  rw [pruneStaleContexts, List.filter_append, hchannels, hkept, List.nil_append]

theorem dropped_of_not_mem {e : JsString × Nat} (he : e ∈ c) (hp : isPrunableContextKey e.1 = true)
    (hnot : e ∉ keptPrunable c now) : (e.2 : Int) < now - readStateHorizonSeconds ∨
      (keptPrunable c now).length = localMaxPrunableContexts ∧
        ∀ k ∈ keptPrunable c now, e.2 ≤ k.2 := by
  by_cases hold : (e.2 : Int) < now - readStateHorizonSeconds
  · exact .inl hold
  right
  unfold keptPrunable at hnot ⊢
  dsimp only at hnot ⊢
  set prunable := c.filter fun e =>
    isPrunableContextKey e.1 && decide (now - readStateHorizonSeconds ≤ e.2)
  have hmem : e ∈ prunable := List.mem_filter.2 ⟨he, by simp [hp, not_lt.1 hold]⟩
  split_ifs at hnot ⊢ with hmany
  · have hperm : (sortNewest prunable).Perm prunable := List.perm_insertionSort _ _
    refine ⟨?_, fun k hk => ?_⟩
    · rw [List.length_take, hperm.length_eq, min_eq_left hmany.le]
    · have hsorted : (sortNewest prunable).Pairwise fun a b => b.2 ≤ a.2 :=
        List.pairwise_insertionSort (fun a b : JsString × Nat => b.2 ≤ a.2) prunable
      rw [← List.take_append_drop localMaxPrunableContexts (sortNewest prunable)] at hsorted
      have hdrop : e ∈ (sortNewest prunable).drop localMaxPrunableContexts := by
        have hsplit := hperm.symm.subset hmem
        rw [← List.take_append_drop localMaxPrunableContexts (sortNewest prunable)] at hsplit
        exact (List.mem_append.1 hsplit).resolve_left hnot
      exact (List.pairwise_append.1 hsorted).2.2 k hk e hdrop
  · exact absurd hmem hnot

end Prune

section RoundTrip

variable (D : Dates)

theorem foldl_raise_fresh {c entries : Contexts} (h : Valid (c ++ entries)) :
    entries.foldl raise c = c ++ entries := by
  induction entries generalizing c with
  | nil => simp
  | cons e entries ih =>
    have hassoc : c ++ e :: entries = (c ++ [e]) ++ entries := by simp
    have hkey : e.1 ∉ c.keys := by
      have hnodup := h.nodup
      rw [keys, List.map_append] at hnodup
      exact fun hmem => List.disjoint_of_nodup_append hnodup hmem (by simp)
    have hzero : c.value e.1 = 0 := by
      have hnone : c.get e.1 = none := by
        rw [Contexts.get, Option.map_eq_none_iff, List.find?_eq_none]
        intro e' he' heq
        exact hkey (of_decide_eq_true heq ▸ List.mem_map_of_mem he')
      rw [value, hnone, Option.getD_none]
    have hraise : c.raise e = c ++ [e] := by
      rw [raise, hzero, if_pos (h.pos e (by simp)), Contexts.set, if_neg hkey]
    rw [List.foldl_cons, hraise, hassoc]
    exact ih (hassoc ▸ h)

theorem stateOf_isSome {pruned : Contexts} :
    (stateOf D pruned).isSome ↔ ∀ e ∈ pruned, e.2 * 1000 ≤ 8640000000000000 := by
  rw [stateOf, Option.isSome_map]
  induction pruned with
  | nil => simp
  | cons e pruned ih =>
    rw [List.forall_mem_cons, ← ih, ← D.toISOString_isSome, List.mapM_cons]
    cases D.toISOString (e.2 * 1000) with
    | none => simp
    | some text => cases (pruned.mapM fun e => (D.toISOString (e.2 * 1000)).map fun text => (e.1, text)) <;> simp

theorem storedTimestamps_stateOf {pruned : Contexts} {record : List (JsString × String)}
    (h : stateOf D pruned = some record) :
    storedTimestamps D record = pruned.filter fun e => e.1 ≠ proto := by
  obtain ⟨written, hwritten, rfl⟩ := Option.map_eq_some_iff.1 h
  clear h
  induction pruned generalizing written with
  | nil =>
    obtain rfl : written = [] := by simpa [eq_comm] using hwritten
    rfl
  | cons e pruned ih =>
    rw [List.mapM_cons, Option.bind_eq_bind, Option.bind_eq_some_iff] at hwritten
    obtain ⟨first, hfirst, hwritten⟩ := hwritten
    obtain ⟨text, htext, rfl⟩ := Option.map_eq_some_iff.1 hfirst
    rw [Option.bind_eq_bind, Option.bind_eq_some_iff] at hwritten
    obtain ⟨rest, hrest, hwritten⟩ := hwritten
    obtain rfl : (e.1, text) :: rest = written := Option.some.inj hwritten
    obtain ⟨hne, hparse⟩ := D.parse_toISOString _ _ htext
    have hseconds : localIsoToUnixSeconds D text = some (e.2 : Int) := by
      rw [localIsoToUnixSeconds, if_neg hne, hparse, Option.map_some]
      congr 1
      omega
    have ih := ih rest hrest
    unfold storedTimestamps at ih ⊢
    by_cases hkey : e.1 = proto
    · simpa [hkey] using ih
    · simpa [hkey, hseconds] using ih

variable (s : Manager) (now : Int)

/-- Markers that are written and read again: the channels keep theirs, nothing is made up, and what
is dropped is a marker of a message or a thread, too old or not among the newest. -/
def RoundTrips : Prop :=
  ∃ stored, writeStoredReadState D s.effectiveState s.publishableContextIds s.contextSourceCreatedAt now =
      some stored ∧
    (∀ key, isPrunableContextKey key = false →
      (readContexts D stored.contexts).get key = s.effectiveState.get key) ∧
    (∀ key ts, (readContexts D stored.contexts).get key = some ts → s.effectiveState.get key = some ts) ∧
    ∀ key ts, s.effectiveState.get key = some ts → (readContexts D stored.contexts).get key = none →
      isPrunableContextKey key = true ∧ ((ts : Int) < now - readStateHorizonSeconds ∨
        ((readContexts D stored.contexts).filter fun e => isPrunableContextKey e.1).length =
            localMaxPrunableContexts ∧
          ∀ e ∈ readContexts D stored.contexts, isPrunableContextKey e.1 = true → ts ≤ e.2)

variable {s now}

theorem roundTrips_iff (h : Valid s.effectiveState) :
    RoundTrips D s now ↔ s.effectiveState.get proto = none ∧
      ∀ e ∈ pruneStaleContexts s.effectiveState now, e.2 * 1000 ≤ 8640000000000000 := by
  have hprotoKey : isPrunableContextKey proto = false := by decide
  have hread {record : List (JsString × String)}
      (hstate : stateOf D (pruneStaleContexts s.effectiveState now) = some record) :
      readContexts D record =
        (pruneStaleContexts s.effectiveState now).filter fun e => e.1 ≠ proto := by
    rw [readContexts, foldl_mergeStored, storedTimestamps_stateOf D hstate]
    refine foldl_raise_fresh ⟨?_, fun e he => ?_⟩
    · exact (List.filter_sublist.map _).nodup h.prune.nodup
    · exact h.prune.pos e (List.mem_of_mem_filter he)
  constructor
  · rintro ⟨stored, hwrite, hchannels, -, -⟩
    obtain ⟨record, hstate, rfl⟩ := Option.map_eq_some_iff.1 hwrite
    refine ⟨?_, (stateOf_isSome D).1 (by rw [hstate]; rfl)⟩
    rw [← hchannels proto hprotoKey, hread hstate, Contexts.get, Option.map_eq_none_iff,
      List.find?_eq_none]
    intro e he heq
    simpa [of_decide_eq_true heq] using (List.mem_filter.1 he).2
  · rintro ⟨hproto, hdates⟩
    obtain ⟨record, hstate⟩ := Option.isSome_iff_exists.1 ((stateOf_isSome D).2 hdates)
    refine ⟨_, by rw [writeStoredReadState, hstate]; rfl, ?_⟩
    have hback : readContexts D record = pruneStaleContexts s.effectiveState now := by
      rw [hread hstate]
      refine List.filter_eq_self.2 fun e he => decide_eq_true fun heq => ?_
      have hget : s.effectiveState.get e.1 = some e.2 := (get_eq_some h.nodup).2 (prune_subset he)
      rw [heq, hproto] at hget
      cases hget
    dsimp only
    rw [hback]
    have hnodup : (pruneStaleContexts s.effectiveState now).keys.Nodup := h.prune.nodup
    refine ⟨fun key hkey => ?_, fun key ts hget => ?_, fun key ts hget hnone => ?_⟩
    · ext ts
      rw [get_eq_some hnodup, get_eq_some h.nodup, mem_prune]
      refine ⟨fun hmem => ?_, fun hmem => .inl ⟨hmem, hkey⟩⟩
      rcases hmem with hmem | hmem
      · exact hmem.1
      · exact (keptPrunable_subset hmem).1
    · exact (get_eq_some h.nodup).2 (prune_subset ((get_eq_some hnodup).1 hget))
    · have hmem := (get_eq_some h.nodup).1 hget
      have hnot : (key, ts) ∉ pruneStaleContexts s.effectiveState now := by
        intro hpruned
        rw [(get_eq_some hnodup).2 hpruned] at hnone
        cases hnone
      rw [mem_prune, not_or] at hnot
      have hp : isPrunableContextKey key = true := by
        by_contra hp
        exact hnot.1 ⟨hmem, Bool.not_eq_true _ ▸ hp⟩
      refine ⟨hp, ?_⟩
      rcases dropped_of_not_mem hmem hp hnot.2 with hold | ⟨hlength, hnewer⟩
      · exact .inl hold
      refine .inr ⟨by rw [filter_prune, hlength], fun e he hpe => ?_⟩
      rcases mem_prune.1 he with he | he
      · rw [he.2] at hpe
        cases hpe
      · exact hnewer e he

end RoundTrip

/-- After any run, a context has the newest of its hydrated marker and all timestamps applied; and
its markers survive the store, but for what is pruned, exactly if none is for `__proto__` and
those that are kept are dates. -/
theorem readState_newest_persists (D : Dates) (pubkey clientId slotId : JsString) (stored : Stored)
    (steps : List Manager.Step) :
    let start := Manager.hydrate D pubkey clientId slotId stored
    let s := runFrom Manager.step start steps
    (∀ key, s.getOwnTimestamp key =
      marker (max ((readContexts D stored.contexts).value key) (newest key (start.applied steps)))) ∧
    ∀ now, RoundTrips D s now ↔ s.getOwnTimestamp proto = none ∧
      ∀ e ∈ pruneStaleContexts s.effectiveState now, e.2 * 1000 ≤ 8640000000000000 := by
  intro start s
  have hvalid : Valid s.effectiveState := Manager.valid_run D pubkey clientId slotId stored steps
  refine ⟨fun key => ?_, fun now => roundTrips_iff D hvalid⟩
  rw [Manager.getOwnTimestamp, get_eq_marker hvalid, Manager.effectiveState_run]
  exact congrArg marker ((foldl_raise (valid_readContexts D _) _).2 key)

def unaryDates : Dates where
  toISOString ms := if ms ≤ 8640000000000000 then some (String.ofList (List.replicate (ms + 1) 'I')) else none
  parse text := some (text.length - 1)
  toISOString_isSome ms := by split_ifs with h <;> simp [h]
  parse_toISOString ms text h := by
    rw [Option.ite_none_right_eq_some] at h
    obtain ⟨-, h⟩ := h
    cases h
    refine ⟨fun h => ?_, by simp⟩
    simpa using congrArg String.length h

def emptyStore : Stored := ⟨[], [], []⟩

def sampleStart : Manager :=
  Manager.hydrate unaryDates (ascii "me") (ascii "client") (ascii "slot") emptyStore

theorem channel_marker_lost :
    ¬ RoundTrips unaryDates (runFrom Manager.step sampleStart [.markContextRead proto 5 0]) 0 ∧
      ¬ RoundTrips unaryDates (runFrom Manager.step sampleStart
        [.markContextRead (ascii "general") 5 0, .seedContextRead (ascii "random") 8640000000001]) 0 := by
  constructor
  · rw [sampleStart, roundTrips_iff _ (Manager.valid_run ..)]
    decide +kernel
  · rw [sampleStart, roundTrips_iff _ (Manager.valid_run ..)]
    decide +kernel

end Colony.ReadState
