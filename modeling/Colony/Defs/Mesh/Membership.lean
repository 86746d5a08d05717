import Colony.Defs.Data.Dict
import Colony.Defs.Data.Run
import Mathlib.Data.List.Sort

namespace Colony.Mesh

open Colony.Data

abbrev RuntimeId := BitVec 256

structure GossipRecord where
  runtimeId : RuntimeId
  endpointAddrs : List String
  protoVersion : Nat
  load : UInt32
  draining : Bool
  capabilities : List String
  version : Nat
  heartbeatMillis : Nat
  deriving DecidableEq

def GossipRecord.new (runtimeId : RuntimeId) (endpointAddrs : List String) (protoVersion now : Nat) :
    GossipRecord where
  runtimeId
  endpointAddrs
  protoVersion
  load := 0
  draining := false
  capabilities := []
  version := 1
  heartbeatMillis := now

structure ReadyRecord where
  runtimeId : RuntimeId
  runtimePubkey : String
  relayPubkey : String
  relaySig : String
  endpointAddrs : List String
  protoVersion : Nat
  capabilities : List String
  deriving DecidableEq

structure Crypto where
  toHex : RuntimeId → String
  verifySchnorr : RuntimeId → String → String → Bool

namespace ReadyRecord

def verifyAttestation (lib : Crypto) (ready : ReadyRecord) : Bool :=
  ready.runtimePubkey == lib.toHex ready.runtimeId &&
    lib.verifySchnorr ready.runtimeId ready.relayPubkey ready.relaySig

def hint (ready : ReadyRecord) (now : Nat) : GossipRecord :=
  { GossipRecord.new ready.runtimeId ready.endpointAddrs ready.protoVersion now with
    capabilities := ready.capabilities }

end ReadyRecord

structure GossipDigestEntry where
  runtimeId : RuntimeId
  version : Nat

structure Membership where
  localRecord : GossipRecord
  peers : Dict RuntimeId GossipRecord
  expectedRelayPubkey : Option String
  keyed : ∀ id record, peers.lookup id = some record → record.runtimeId = id
  apart : peers.lookup localRecord.runtimeId = none

namespace Membership

theorem keyed_empty (id : RuntimeId) (record : GossipRecord)
    (h : (∅ : Dict RuntimeId GossipRecord).lookup id = some record) : record.runtimeId = id := by
  cases h

def new (localRecord : GossipRecord) (expectedRelayPubkey : Option String) : Membership where
  localRecord
  peers := ∅
  expectedRelayPubkey
  keyed := keyed_empty
  apart := AList.lookup_empty localRecord.runtimeId

variable (lib : Crypto) (m : Membership)

def localRuntimeId : RuntimeId := m.localRecord.runtimeId

def hasPeer (runtimeId : RuntimeId) : Bool := (m.peers.lookup runtimeId).isSome

theorem keyed_insert {record : GossipRecord} (id : RuntimeId) (found : GossipRecord)
    (h : (m.peers.insert record.runtimeId record).lookup id = some found) :
    found.runtimeId = id := by
  rw [Dict.lookup_insert_if] at h
  split at h
  · next hid => exact (Option.some.inj h) ▸ hid.symm
  · exact m.keyed id found h

theorem apart_insert {record : GossipRecord} (h : record.runtimeId ≠ m.localRuntimeId) :
    (m.peers.insert record.runtimeId record).lookup m.localRecord.runtimeId = none := by
  rw [Dict.lookup_insert_if, if_neg fun heq => h heq.symm]
  exact m.apart

def applyGossipRecord (record : GossipRecord) : Membership × Bool :=
  if h : record.runtimeId = m.localRuntimeId then (m, false)
  else if (m.peers.lookup record.runtimeId).any fun peer => record.version ≤ peer.version then
    (m, false)
  else
    ({ m with
        peers := m.peers.insert record.runtimeId record
        keyed := m.keyed_insert
        apart := m.apart_insert h }, true)

def applyAll (records : List GossipRecord) : Membership :=
  records.foldl (fun m record => (m.applyGossipRecord record).1) m

def admits (ready : ReadyRecord) : Bool :=
  m.expectedRelayPubkey == some ready.relayPubkey && ready.verifyAttestation lib

def applyReadyRecord (ready : ReadyRecord) (now : Nat) : Membership :=
  if ready.runtimeId = m.localRuntimeId then m
  else if m.admits lib ready then (m.applyGossipRecord (ready.hint now)).1
  else m

def applyReadyRecords (records : List (ReadyRecord × Nat)) : Membership :=
  records.foldl (fun m ready => m.applyReadyRecord lib ready.1 ready.2) m

def updateLocal (now : Nat) : Membership :=
  { m with
    localRecord :=
      { m.localRecord with
        version := min (m.localRecord.version + 1) (2 ^ 64 - 1), heartbeatMillis := now } }

def records : List GossipRecord := m.peers.entries.map (·.2) ++ [m.localRecord]

def digest : List GossipDigestEntry :=
  (m.records.map fun record => ⟨record.runtimeId, record.version⟩).insertionSort
    fun a b => a.runtimeId ≤ b.runtimeId

def versionIn (digest : List GossipDigestEntry) (id : RuntimeId) : Option Nat :=
  (digest.reverse.find? (·.runtimeId = id)).map GossipDigestEntry.version

def deltaFor (digest : List GossipDigestEntry) : List GossipRecord :=
  (m.records.filter fun record =>
    (versionIn digest record.runtimeId).all (· < record.version)).insertionSort
      fun a b => a.runtimeId ≤ b.runtimeId

def pull (remote : Membership) : Membership := m.applyAll (remote.deltaFor m.digest)

end Membership

structure Highest (records : List GossipRecord) (id : RuntimeId) (held : Option GossipRecord) :
    Prop where
  mem : ∀ record, held = some record → record ∈ records ∧ record.runtimeId = id
  top : ∀ record ∈ records, record.runtimeId = id →
    ∃ h, held = some h ∧ record.version ≤ h.version

namespace Membership

variable {lib : Crypto} {m a b : Membership} {id : RuntimeId} {record : GossipRecord}
  {rs : List GossipRecord}

theorem applyGossipRecord_fixed (m : Membership) (record : GossipRecord) :
    (m.applyGossipRecord record).1.localRecord = m.localRecord ∧
      (m.applyGossipRecord record).1.expectedRelayPubkey = m.expectedRelayPubkey := by
  unfold applyGossipRecord
  split
  · exact ⟨rfl, rfl⟩
  · split <;> exact ⟨rfl, rfl⟩

@[simp] theorem applyGossipRecord_local (m : Membership) (record : GossipRecord) :
    (m.applyGossipRecord record).1.localRecord = m.localRecord :=
  (applyGossipRecord_fixed m record).1

@[simp] theorem applyAll_local (m : Membership) (rs : List GossipRecord) :
    (m.applyAll rs).localRecord = m.localRecord := by
  induction rs generalizing m with
  | nil => rfl
  | cons r rs ih => exact (ih _).trans (applyGossipRecord_local m r)

theorem highest_apply (hid : id ≠ m.localRuntimeId) (h : Highest rs id (m.peers.lookup id)) :
    Highest (rs ++ [record]) id ((m.applyGossipRecord record).1.peers.lookup id) := by
  have hold : ∀ r, m.peers.lookup id = some r → r ∈ rs ++ [record] ∧ r.runtimeId = id :=
    fun r hr => ⟨List.mem_append_left _ (h.mem r hr).1, (h.mem r hr).2⟩
  unfold applyGossipRecord
  split
  · next heq =>
    refine ⟨hold, fun r hr hrid => ?_⟩
    rcases List.mem_append.1 hr with hr | hr
    · exact h.top r hr hrid
    · rw [List.mem_singleton.1 hr] at hrid
      exact absurd (hrid.symm.trans heq) hid
  · split
    · next hany =>
      refine ⟨hold, fun r hr hrid => ?_⟩
      rcases List.mem_append.1 hr with hr | hr
      · exact h.top r hr hrid
      · rw [List.mem_singleton.1 hr] at hrid ⊢
        cases hpeer : m.peers.lookup record.runtimeId with
        | none => rw [hpeer] at hany; cases hany
        | some peer =>
          rw [hpeer] at hany
          exact ⟨peer, hrid ▸ hpeer, by simpa using hany⟩
    · next hany =>
      simp only [Dict.lookup_insert_if]
      by_cases hrid : id = record.runtimeId
      · rw [if_pos hrid]
        refine ⟨fun r hr => ?_, fun r hr hrid' => ⟨record, rfl, ?_⟩⟩
        · rw [← Option.some.inj hr]
          exact ⟨by simp, hrid.symm⟩
        · rcases List.mem_append.1 hr with hr | hr
          · obtain ⟨peer, hpeer, hle⟩ := h.top r hr hrid'
            rw [← hrid, hpeer] at hany
            simp only [Option.any_some, decide_eq_true_eq] at hany
            omega
          · rw [List.mem_singleton.1 hr]
      · rw [if_neg hrid]
        refine ⟨hold, fun r hr hrid' => ?_⟩
        rcases List.mem_append.1 hr with hr | hr
        · exact h.top r hr hrid'
        · rw [List.mem_singleton.1 hr] at hrid'
          exact absurd hrid'.symm hrid

theorem highest_applyAll (hid : id ≠ m.localRuntimeId) (new : List GossipRecord)
    (h : Highest rs id (m.peers.lookup id)) :
    Highest (rs ++ new) id ((m.applyAll new).peers.lookup id) := by
  induction new generalizing m rs with
  | nil => simpa [applyAll] using h
  | cons r new ih =>
    have hrest := ih (m := (m.applyGossipRecord r).1) (by simpa [localRuntimeId] using hid)
      (highest_apply hid h)
    rwa [List.append_assoc] at hrest

def versionOf (m : Membership) (id : RuntimeId) : Option Nat :=
  if id = m.localRuntimeId then some m.localRecord.version
  else (m.peers.lookup id).map GossipRecord.version

theorem mem_records : record ∈ m.records ↔
    record = m.localRecord ∨ m.peers.lookup record.runtimeId = some record := by
  simp only [records, List.mem_append, List.mem_map, List.mem_singleton]
  constructor
  · rintro (⟨⟨id, r⟩, hmem, rfl⟩ | rfl)
    · have hlookup := (Dict.mem_lookup_entries m.peers id r).2 hmem
      exact .inr ((m.keyed id r hlookup).symm ▸ hlookup)
    · exact .inl rfl
  · rintro (rfl | hlookup)
    · exact .inr rfl
    · exact .inl ⟨_, (Dict.mem_lookup_entries m.peers _ record).1 hlookup, rfl⟩

theorem versionOf_of_mem (h : record ∈ m.records) :
    m.versionOf record.runtimeId = some record.version := by
  unfold versionOf
  rcases mem_records.1 h with rfl | hlookup
  · exact if_pos rfl
  · rw [if_neg, hlookup]
    · rfl
    · intro heq
      have hapart := m.apart
      rw [← localRuntimeId, ← heq, hlookup] at hapart
      cases hapart

theorem mem_of_versionOf {version : Nat} (h : m.versionOf id = some version) :
    ∃ r ∈ m.records, r.runtimeId = id ∧ r.version = version := by
  unfold versionOf at h
  split at h
  · next heq => exact ⟨_, mem_records.2 (.inl rfl), heq.symm, Option.some.inj h⟩
  · obtain ⟨r, hr, hversion⟩ := Option.map_eq_some_iff.1 h
    have hkey := m.keyed id r hr
    exact ⟨r, mem_records.2 (.inr (hkey.symm ▸ hr)), hkey, hversion⟩

theorem versionIn_digest (m : Membership) (id : RuntimeId) :
    versionIn m.digest id = m.versionOf id := by
  have hmem (e : GossipDigestEntry) (h : e ∈ m.digest) : m.versionOf e.runtimeId = some e.version := by
    simp only [digest, List.mem_insertionSort, List.mem_map] at h
    obtain ⟨r, hr, rfl⟩ := h
    exact versionOf_of_mem hr
  unfold versionIn
  cases hfind : m.digest.reverse.find? (·.runtimeId = id) with
  | some e =>
    have hid : e.runtimeId = id := by simpa using List.find?_some hfind
    rw [← hid, hmem e (List.mem_reverse.1 (List.mem_of_find?_eq_some hfind))]
    rfl
  | none =>
    cases hversion : m.versionOf id with
    | none => rfl
    | some version =>
      obtain ⟨r, hr, hid, -⟩ := mem_of_versionOf hversion
      have hentry : (⟨r.runtimeId, r.version⟩ : GossipDigestEntry) ∈ m.digest.reverse := by
        simp only [digest, List.mem_reverse, List.mem_insertionSort]
        exact List.mem_map_of_mem hr
      exact absurd hid (by simpa using List.find?_eq_none.1 hfind _ hentry)

theorem mem_delta : record ∈ b.deltaFor a.digest ↔
    record ∈ b.records ∧ ∀ version, a.versionOf record.runtimeId = some version →
      version < record.version := by
  simp only [deltaFor, List.mem_insertionSort, List.mem_filter, versionIn_digest]
  cases a.versionOf record.runtimeId <;> simp

theorem highest_records (hid : id ≠ m.localRuntimeId) :
    Highest m.records id (m.peers.lookup id) := by
  refine ⟨fun r hr => ?_, fun r hr hrid => ?_⟩
  · have hkey := m.keyed id r hr
    exact ⟨mem_records.2 (.inr (hkey.symm ▸ hr)), hkey⟩
  · rcases mem_records.1 hr with rfl | hlookup
    · exact absurd hrid.symm hid
    · exact ⟨r, hrid ▸ hlookup, le_rfl⟩

@[simp] theorem pull_local (a b : Membership) : (a.pull b).localRecord = a.localRecord :=
  applyAll_local a _

theorem highest_pull (hid : id ≠ a.localRuntimeId) :
    Highest (a.records ++ b.records) id ((a.pull b).peers.lookup id) := by
  have hpull := highest_applyAll hid (b.deltaFor a.digest) (highest_records hid)
  refine ⟨fun r hr => ?_, fun r hr hrid => ?_⟩
  · obtain ⟨hmem, hrid⟩ := hpull.mem r hr
    refine ⟨?_, hrid⟩
    rcases List.mem_append.1 hmem with h | h
    · exact List.mem_append_left _ h
    · exact List.mem_append_right _ (mem_delta.1 h).1
  · rcases List.mem_append.1 hr with h | h
    · exact hpull.top r (List.mem_append_left _ h) hrid
    by_cases hnew : ∀ version, a.versionOf r.runtimeId = some version → version < r.version
    · exact hpull.top r (List.mem_append_right _ (mem_delta.2 ⟨h, hnew⟩)) hrid
    · push Not at hnew
      obtain ⟨version, hversion, hle⟩ := hnew
      obtain ⟨r', hr', hrid', rfl⟩ := mem_of_versionOf hversion
      obtain ⟨held, hheld, hle'⟩ :=
        hpull.top r' (List.mem_append_left _ hr') (hrid'.trans hrid)
      exact ⟨held, hheld, hle.trans hle'⟩

def Covers (a b : Membership) : Prop :=
  ∀ r ∈ b.records, r.runtimeId ≠ a.localRuntimeId →
    ∃ held, a.peers.lookup r.runtimeId = some held ∧ r.version ≤ held.version

theorem pull_of_covers (h : a.Covers b) : a.pull b = a := by
  have hown : ∀ r ∈ b.deltaFor a.digest, r.runtimeId = a.localRuntimeId := by
    intro r hr
    obtain ⟨hmem, hnew⟩ := mem_delta.1 hr
    by_contra hne
    obtain ⟨held, hheld, hle⟩ := h r hmem hne
    have hversion : a.versionOf r.runtimeId = some held.version := by
      rw [versionOf, if_neg hne, hheld]
      rfl
    exact absurd (hnew _ hversion) (not_lt.2 hle)
  unfold pull applyAll
  generalize b.deltaFor a.digest = delta at hown
  induction delta with
  | nil => rfl
  | cons r delta ih =>
    obtain ⟨hr, hdelta⟩ := List.forall_mem_cons.1 hown
    rw [List.foldl_cons, applyGossipRecord, dif_pos hr]
    exact ih hdelta

theorem highest_version_eq {rs' : List GossipRecord} {held held' : Option GossipRecord}
    (h : Highest rs id held) (h' : Highest rs' id held') (hmem : ∀ r, r ∈ rs ↔ r ∈ rs') :
    held.map GossipRecord.version = held'.map GossipRecord.version := by
  have hle {rs rs' : List GossipRecord} {held held' : Option GossipRecord}
      (h : Highest rs id held) (h' : Highest rs' id held') (hmem : ∀ r ∈ rs, r ∈ rs') :
      ∀ r, held = some r → ∃ r', held' = some r' ∧ r.version ≤ r'.version :=
    fun r hr => h'.top r (hmem r (h.mem r hr).1) (h.mem r hr).2
  have hto := hle h h' fun r hr => (hmem r).1 hr
  have hfrom := hle h' h fun r hr => (hmem r).2 hr
  cases held with
  | none =>
    cases held' with
    | none => rfl
    | some r' => obtain ⟨r, hr, -⟩ := hfrom r' rfl; cases hr
  | some r =>
    obtain ⟨r', rfl, hle⟩ := hto r rfl
    obtain ⟨_, hr, hge⟩ := hfrom r' rfl
    cases hr
    exact congrArg some (le_antisymm hle hge)

inductive Exchange (a b : Membership) : Membership → Membership → Prop
  | parallel : Exchange a b (a.pull b) (b.pull a)
  | inTurn : Exchange a b (a.pull b) (b.pull (a.pull b))

theorem mem_records_pull (h : record ∈ (a.pull b).records) : record ∈ a.records ++ b.records := by
  rcases mem_records.1 h with rfl | hlookup
  · rw [pull_local]
    exact List.mem_append_left _ (mem_records.2 (.inl rfl))
  · refine ((highest_pull ?_).mem record hlookup).1
    intro heq
    have hapart := (a.pull b).apart
    rw [pull_local, ← localRuntimeId, ← heq, hlookup] at hapart
    cases hapart

theorem covered_pull (h : record ∈ a.records ++ b.records) :
    ∃ r ∈ (a.pull b).records, r.runtimeId = record.runtimeId ∧
      (record ∈ a.records ∨ record.runtimeId ≠ a.localRuntimeId → record.version ≤ r.version) := by
  by_cases hid : record.runtimeId = a.localRuntimeId
  · refine ⟨a.localRecord, mem_records.2 (.inl (pull_local a b).symm), hid.symm, ?_⟩
    rintro (hmem | hne)
    · have hversion := versionOf_of_mem hmem
      rw [versionOf, if_pos hid] at hversion
      exact (Option.some.inj hversion).ge
    · exact absurd hid hne
  · obtain ⟨held, hheld, hle⟩ := (highest_pull hid).top record h rfl
    have hkey := (a.pull b).keyed _ held hheld
    exact ⟨held, mem_records.2 (.inr (hkey.symm ▸ hheld)), hkey, fun _ => hle⟩

variable {a' b' : Membership}

theorem Exchange.local (h : Exchange a b a' b') :
    a'.localRecord = a.localRecord ∧ b'.localRecord = b.localRecord := by
  cases h <;> simp

theorem Exchange.highest (h : Exchange a b a' b') (id : RuntimeId) :
    (id ≠ a.localRuntimeId → Highest (a.records ++ b.records) id (a'.peers.lookup id)) ∧
      (id ≠ b.localRuntimeId → Highest (a.records ++ b.records) id (b'.peers.lookup id)) := by
  cases h with
  | parallel =>
    refine ⟨highest_pull, fun hid => ?_⟩
    have hpull := highest_pull (b := a) hid
    exact ⟨fun r hr => ⟨List.mem_append.2 (List.mem_append.1 (hpull.mem r hr).1).symm,
      (hpull.mem r hr).2⟩, fun r hr => hpull.top r (List.mem_append.2 (List.mem_append.1 hr).symm)⟩
  | inTurn =>
    refine ⟨highest_pull, fun hid => ?_⟩
    have hpull := highest_pull (b := a.pull b) hid
    refine ⟨fun r hr => ?_, fun r hr hrid => ?_⟩
    · obtain ⟨hmem, hrid⟩ := hpull.mem r hr
      refine ⟨?_, hrid⟩
      rcases List.mem_append.1 hmem with h | h
      · exact List.mem_append_right _ h
      · exact mem_records_pull h
    · rcases List.mem_append.1 hr with ha | hb
      · obtain ⟨r', hr', hid', hle⟩ := covered_pull (List.mem_append_left b.records ha)
        obtain ⟨held, hheld, hle'⟩ := hpull.top r' (List.mem_append_right _ hr') (hid'.trans hrid)
        exact ⟨held, hheld, (hle (.inl ha)).trans hle'⟩
      · exact hpull.top r (List.mem_append_left _ hb) hrid

theorem Exchange.mem_records (h : Exchange a b a' b') :
    (∀ r ∈ a'.records, r ∈ a.records ++ b.records) ∧
      ∀ r ∈ b'.records, r ∈ a.records ++ b.records := by
  cases h with
  | parallel =>
    exact ⟨fun r => mem_records_pull, fun r hr =>
      List.mem_append.2 (List.mem_append.1 (mem_records_pull hr)).symm⟩
  | inTurn =>
    refine ⟨fun r => mem_records_pull, fun r hr => ?_⟩
    rcases List.mem_append.1 (mem_records_pull hr) with h | h
    · exact List.mem_append_right _ h
    · exact mem_records_pull h

theorem Exchange.covers (h : Exchange a b a' b') : a'.Covers b' ∧ b'.Covers a' := by
  obtain ⟨hlocal, hlocal'⟩ := h.local
  obtain ⟨hmem, hmem'⟩ := h.mem_records
  constructor
  · intro r hr hid
    rw [localRuntimeId, hlocal] at hid
    exact ((h.highest _).1 hid).top r (hmem' r hr) rfl
  · intro r hr hid
    rw [localRuntimeId, hlocal'] at hid
    exact ((h.highest _).2 hid).top r (hmem r hr) rfl

inductive Input
  | gossip (record : GossipRecord)
  | ready (ready : ReadyRecord) (now : Nat)

def step (lib : Crypto) (m : Membership) : Input → Membership
  | .gossip record => (m.applyGossipRecord record).1
  | .ready ready now => m.applyReadyRecord lib ready now

def entered (lib : Crypto) (key : Option String) : Input → Option GossipRecord
  | .gossip record => some record
  | .ready ready now =>
    if key == some ready.relayPubkey && ready.verifyAttestation lib then some (ready.hint now)
    else none

def Consistent (inputs : List Input) : Prop :=
  ∀ r r', .gossip r ∈ inputs → .gossip r' ∈ inputs → r.runtimeId = r'.runtimeId →
    r.version = r'.version → r = r'

def Settled (lib : Crypto) (key : Option String) (inputs : List Input) (id : RuntimeId)
    (version : Nat) : Prop :=
  version = 1 → ∀ ready now, .ready ready now ∈ inputs →
    (entered lib key (.ready ready now)).isSome = true → ready.runtimeId ≠ id

variable {key : Option String} {inputs : List Input}

theorem applyReadyRecord_fixed (lib : Crypto) (m : Membership) (ready : ReadyRecord) (now : Nat) :
    (m.applyReadyRecord lib ready now).localRecord = m.localRecord ∧
      (m.applyReadyRecord lib ready now).expectedRelayPubkey = m.expectedRelayPubkey := by
  unfold applyReadyRecord
  split
  · exact ⟨rfl, rfl⟩
  · split
    · exact applyGossipRecord_fixed m _
    · exact ⟨rfl, rfl⟩

theorem step_fixed (m : Membership) (input : Input) :
    (step lib m input).localRecord = m.localRecord ∧
      (step lib m input).expectedRelayPubkey = m.expectedRelayPubkey := by
  cases input with
  | gossip record => exact applyGossipRecord_fixed m record
  | ready ready now => exact applyReadyRecord_fixed lib m ready now

theorem highest_step (lib : Crypto) (hid : id ≠ m.localRuntimeId) (hkey : m.expectedRelayPubkey = key)
    (h : Highest rs id (m.peers.lookup id)) (input : Input) :
    Highest (rs ++ (entered lib key input).toList) id ((step lib m input).peers.lookup id) := by
  cases input with
  | gossip record => exact highest_apply hid h
  | ready ready now =>
    subst hkey
    simp only [step, applyReadyRecord, entered]
    by_cases hadmits : m.admits lib ready = true
    · rw [if_pos (show (_ && _) = true from hadmits)]
      split
      · next heq =>
        refine ⟨fun r hr => ⟨List.mem_append_left _ (h.mem r hr).1, (h.mem r hr).2⟩, ?_⟩
        intro r hr hrid
        rcases List.mem_append.1 hr with hr | hr
        · exact h.top r hr hrid
        · rw [List.mem_singleton.1 hr] at hrid
          exact absurd (hrid.symm.trans heq) hid
      · exact highest_apply hid h
    · rw [if_neg (show ¬(_ && _) = true from hadmits), if_neg hadmits, ite_self]
      simpa using h

theorem run_local (lib : Crypto) (key : Option String) (record : GossipRecord)
    (inputs : List Input) :
    (runFrom (step lib) (.new record key) inputs).localRecord = record ∧
      (runFrom (step lib) (.new record key) inputs).expectedRelayPubkey = key := by
  refine runFrom_history (p := fun _ (m : Membership) => m.localRecord = record ∧ m.expectedRelayPubkey = key)
    ⟨rfl, rfl⟩ (fun calls input ih => ?_) inputs
  rw [(step_fixed _ input).1, (step_fixed _ input).2]
  exact ih

theorem highest_run {record : GossipRecord} (hid : id ≠ record.runtimeId) (inputs : List Input) :
    Highest (inputs.filterMap (entered lib key)) id
      ((runFrom (step lib) (.new record key) inputs).peers.lookup id) := by
  refine runFrom_history (p := fun calls (m : Membership) =>
    Highest (calls.filterMap (entered lib key)) id (m.peers.lookup id)) ?_
    (fun calls input ih => ?_) inputs
  · exact ⟨fun r hr => (by cases hr), fun r hr => absurd hr List.not_mem_nil⟩
  · obtain ⟨hlocal, hkey⟩ := run_local lib key record calls
    have hstep := highest_step lib (by rwa [localRuntimeId, hlocal]) hkey ih input
    rw [List.filterMap_append]
    cases hinput : entered lib key input <;> simpa [hinput] using hstep

theorem gossip_of_entered (lib : Crypto) (key : Option String) {version : Nat}
    (hr : record ∈ inputs.filterMap (entered lib key))
    (hsettled : Settled lib key inputs record.runtimeId version)
    (hversion : record.version = version) : .gossip record ∈ inputs := by
  obtain ⟨input, hinput, hentered⟩ := List.mem_filterMap.1 hr
  cases input with
  | gossip r => exact (Option.some.inj hentered) ▸ hinput
  | ready ready now =>
    have hsome : (entered lib key (.ready ready now)).isSome = true := by rw [hentered]; rfl
    simp only [entered] at hentered
    split at hentered
    · have hhint := Option.some.inj hentered
      exact absurd (congrArg GossipRecord.runtimeId hhint)
        (hsettled (hversion.symm.trans (congrArg GossipRecord.version hhint).symm) ready now hinput
          hsome)
    · cases hentered

section Converges

variable (lib : Crypto) (ka kb : Option String) (ra rb : GossipRecord) (ia ib : List Input)

theorem gossip_of_record {lib : Crypto} {ra : GossipRecord} {ia : List Input}
    (hid : record.runtimeId ≠ ra.runtimeId)
    (hr : record ∈ (runFrom (step lib) (.new ra key) ia).records)
    (hsettled : Settled lib key ia record.runtimeId record.version) : .gossip record ∈ ia := by
  rcases mem_records.1 hr with h | h
  · exact absurd (congrArg GossipRecord.runtimeId (h.trans (run_local lib key ra ia).1)) hid
  · exact gossip_of_entered lib key ((highest_run hid ia).mem record h).1 hsettled rfl

/-- Gossip of one meaning converges: a table holds the highest version applied, in whatever order,
and after one exchange two tables hold the highest versions of both; only hints of version 1 may
differ. -/
theorem gossip_converges (hconsistent : Consistent (ia ++ ib)) :
    let a := runFrom (step lib) (.new ra ka) ia
    let b := runFrom (step lib) (.new rb kb) ib
    (∀ id, id ≠ ra.runtimeId → Highest (ia.filterMap (entered lib ka)) id (a.peers.lookup id) ∧
      ∀ r ∈ ia.filterMap (entered lib ka), ∀ held, a.peers.lookup id = some held →
        r.runtimeId = id → r.version = held.version → Settled lib ka ia id r.version → held = r) ∧
    a.localRecord = ra ∧
    ∀ a' b', Exchange a b a' b' →
      (∀ id, (id ≠ ra.runtimeId → Highest (a.records ++ b.records) id (a'.peers.lookup id)) ∧
        (id ≠ rb.runtimeId → Highest (a.records ++ b.records) id (b'.peers.lookup id))) ∧
      (∀ id, id ≠ ra.runtimeId → id ≠ rb.runtimeId →
        (a'.peers.lookup id).map GossipRecord.version =
            (b'.peers.lookup id).map GossipRecord.version ∧
          ∀ r, a'.peers.lookup id = some r → Settled lib ka ia id r.version →
            Settled lib kb ib id r.version → b'.peers.lookup id = some r) ∧
      a'.pull b' = a' ∧ b'.pull a' = b' ∧ a'.localRecord = ra ∧ b'.localRecord = rb := by
  intro a b
  refine ⟨fun id hid => ⟨highest_run hid ia, ?_⟩, (run_local lib ka ra ia).1, fun a' b' h => ?_⟩
  · intro r hr held hheld hrid hversion hsettled
    obtain ⟨hmem, hheldid⟩ := (highest_run hid ia).mem held hheld
    have hr' := gossip_of_entered lib ka hr (hrid.symm ▸ hsettled) rfl
    have hheld' := gossip_of_entered lib ka hmem (hheldid.symm ▸ hsettled) hversion.symm
    exact hconsistent held r (List.mem_append_left _ hheld') (List.mem_append_left _ hr')
      (hheldid.trans hrid.symm) hversion.symm
  have hlocal : a.localRecord = ra := (run_local lib ka ra ia).1
  have hlocal' : b.localRecord = rb := (run_local lib kb rb ib).1
  have hhighest := h.highest
  simp only [localRuntimeId, hlocal, hlocal'] at hhighest
  refine ⟨hhighest, fun id hid hid' => ?_, pull_of_covers h.covers.1, pull_of_covers h.covers.2,
    h.local.1.trans hlocal, h.local.2.trans hlocal'⟩
  have hversions :=
    highest_version_eq ((hhighest id).1 hid) ((hhighest id).2 hid') fun _ => Iff.rfl
  refine ⟨hversions, fun r hr hsettled hsettled' => ?_⟩
  rw [hr] at hversions
  obtain ⟨r', hr', hversion⟩ := Option.map_eq_some_iff.1 hversions.symm
  obtain ⟨hmem, hrid⟩ := ((hhighest id).1 hid).mem r hr
  obtain ⟨hmem', hrid'⟩ := ((hhighest id).2 hid').mem r' hr'
  have hgossip {x : GossipRecord} (hx : x ∈ a.records ++ b.records) (hxid : x.runtimeId = id)
      (hxv : x.version = r.version) : .gossip x ∈ ia ++ ib := by
    subst hxid
    rw [← hxv] at hsettled hsettled'
    exact List.mem_append.2 ((List.mem_append.1 hx).imp (gossip_of_record hid · hsettled)
      (gossip_of_record hid' · hsettled'))
  rw [hr', hconsistent r' r (hgossip hmem' hrid' hversion) (hgossip hmem hrid rfl)
    (hrid'.trans hrid.symm) hversion]

end Converges

section Sample

def trusting : Crypto := ⟨fun _ => "", fun _ _ _ => true⟩

def seed : ReadyRecord := ⟨3, "", "relay", "", ["10.0.0.3:1"], 1, []⟩

def seeded (id : RuntimeId) (now : Nat) : Membership :=
  runFrom (step trusting) (.new (.new id [] 1 0) (some "relay")) [.ready seed now]

-- The second runtime trusts another relay, so the ready record does not enter its table.
def first : List Input := [.ready seed 10, .gossip { seed.hint 5 with version := 2 }]

def second : List Input := [.ready seed 20, .gossip { seed.hint 7 with runtimeId := 4 }]

end Sample

theorem gossip_converges_seeded :
    Consistent (first ++ second) ∧
      ∀ a' b', Exchange (runFrom (step trusting) (.new (.new 1 [] 1 0) (some "relay")) first)
          (runFrom (step trusting) (.new (.new 2 [] 1 0) (some "other")) second) a' b' →
        (∃ held, b'.peers.lookup 3 = some held ∧ 2 ≤ held.version) ∧
          a'.pull b' = a' ∧ b'.pull a' = b' := by
  have hconsistent : Consistent (first ++ second) := by
    intro r r' hr hr' hid _
    simp only [first, second, List.cons_append, List.nil_append, List.mem_cons, reduceCtorEq,
      Input.gossip.injEq, List.not_mem_nil, or_false, false_or] at hr hr'
    rcases hr with rfl | rfl <;> rcases hr' with rfl | rfl
    · rfl
    · exact absurd hid (by decide)
    · exact absurd hid (by decide)
    · rfl
  refine ⟨hconsistent, fun a' b' h => ?_⟩
  obtain ⟨hhighest, -, hstays⟩ := (gossip_converges trusting (some "relay") (some "other")
    (.new 1 [] 1 0) (.new 2 [] 1 0) _ _ hconsistent).2.2 a' b' h
  exact ⟨((hhighest 3).2 (by decide)).top { seed.hint 5 with version := 2 } (by decide +kernel) rfl,
    hstays.1, hstays.2.1⟩

theorem hints_stay_apart : Consistent ([.ready seed 10] ++ [.ready seed 20]) ∧
    Exchange (seeded 1 10) (seeded 2 20) ((seeded 1 10).pull (seeded 2 20))
      ((seeded 2 20).pull (seeded 1 10)) ∧
    ((seeded 1 10).pull (seeded 2 20)).peers.lookup 3 ≠
      ((seeded 2 20).pull (seeded 1 10)).peers.lookup 3 := by
  refine ⟨fun r r' hr => ?_, .parallel, by decide +kernel⟩
  simp at hr

end Membership

end Colony.Mesh
