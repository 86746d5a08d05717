import Colony.Defs.Core.Event
import Colony.Defs.Data.Run

namespace Colony.Audio

open Colony.Core Colony.Data

/-- An id is drawn afresh: by this stream, where they are counted, or by another task. -/
inductive PeerId
  | mine (n : Nat)
  | other (n : Nat)
  deriving DecidableEq

structure AudioPeer where
  pubkey : String
  peerIndex : Nat
  epoch : Nat
  protocolVersion : Nat
  deriving DecidableEq

structure Room where
  peers : Dict PeerId AudioPeer
  nextCandidate : Nat
  activeIndices : List Nat
  indexEpochs : Dict Nat Nat
  ended : Bool
  pinnedVersion : Option Nat

inductive AdmissionError
  | ended
  | full
  | versionMismatch (pinned requested : Nat)

def maxPeersPerRoom : Nat := 25

namespace Room

def new : Room := ⟨∅, 0, [], ∅, false, none⟩

def alloc (room : Room) : (tries : Nat) → Option (Room × Nat × Nat)
  | 0 => none
  | tries + 1 =>
    let idx := room.nextCandidate
    let room' := { room with nextCandidate := if idx = 254 then 0 else idx + 1 }
    if idx ∈ room.activeIndices then alloc room' tries
    else
      let epoch := Dict.getD room.indexEpochs idx 0
      some ({ room' with
        activeIndices := idx :: room.activeIndices
        indexEpochs := room.indexEpochs.insert idx ((epoch + 1) % 256) }, idx, epoch)

def addPeer (room : Room) (id : PeerId) (pubkey : String) (requestedVersion : Nat) :
    Except AdmissionError (Room × AudioPeer) :=
  if room.ended then .error .ended
  else if maxPeersPerRoom ≤ room.peers.entries.length then .error .full
  else if room.pinnedVersion.any (· ≠ requestedVersion) then
    .error (.versionMismatch (room.pinnedVersion.getD 0) requestedVersion)
  else match room.alloc 255 with
    | none => .error .full
    | some (room', peerIndex, epoch) =>
      let peer : AudioPeer := ⟨pubkey, peerIndex, epoch, requestedVersion⟩
      .ok ({ room' with
        pinnedVersion := some (room.pinnedVersion.getD requestedVersion)
        peers := room.peers.insert id peer }, peer)

/-- A peer of another pod comes in under the index that the owner of the huddle gave it. -/
def addPeerAtIndex (room : Room) (id : PeerId) (pubkey : String) (requestedVersion peerIndex : Nat) :
    Except AdmissionError (Room × AudioPeer) :=
  if room.ended then .error .ended
  else if maxPeersPerRoom ≤ room.peers.entries.length ∨ peerIndex ∈ room.activeIndices then .error .full
  else if room.pinnedVersion.any (· ≠ requestedVersion) then
    .error (.versionMismatch (room.pinnedVersion.getD 0) requestedVersion)
  else
    let epoch := Dict.getD room.indexEpochs peerIndex 0
    let peer : AudioPeer := ⟨pubkey, peerIndex, epoch, requestedVersion⟩
    .ok ({ room with
      pinnedVersion := some (room.pinnedVersion.getD requestedVersion)
      activeIndices := peerIndex :: room.activeIndices
      indexEpochs := room.indexEpochs.insert peerIndex ((epoch + 1) % 256)
      -- The addition of bytes wraps.
      nextCandidate := if peerIndex = 254 then 0 else (peerIndex + 1) % 256
      peers := room.peers.insert id peer }, peer)

def removePeer (room : Room) (id : PeerId) : Option Room :=
  (room.peers.lookup id).map fun peer =>
    { room with
      peers := room.peers.erase id
      activeIndices := room.activeIndices.filter (· ≠ peer.peerIndex) }

def isEmpty (room : Room) : Bool := room.peers.entries.isEmpty

def removePeerAndCheckEnded (room : Room) (id : PeerId) : Option (Room × Bool) :=
  (room.removePeer id).map fun room' =>
    if !room'.ended && room'.isEmpty then ({ room' with ended := true }, true) else (room', false)

end Room

namespace Room

variable {room room' : Room} {id id' : PeerId} {pubkey : String} {version index : Nat} {peer : AudioPeer}

structure Admitted (room : Room) (id : PeerId) (pubkey : String) (version : Nat) (room' : Room)
    (peer : AudioPeer) : Prop where
  running : room.ended = false
  space : room.peers.entries.length < maxPeersPerRoom
  free : peer.peerIndex ∉ room.activeIndices
  requested : peer.pubkey = pubkey ∧ peer.protocolVersion = version
  agrees : ∀ pinned, room.pinnedVersion = some pinned → pinned = version
  peers : room'.peers = room.peers.insert id peer
  active : room'.activeIndices = peer.peerIndex :: room.activeIndices
  pinned : room'.pinnedVersion = some version

theorem alloc_free {tries epoch : Nat} (h : room.alloc tries = some (room', index, epoch)) :
    index ∉ room.activeIndices ∧ room'.activeIndices = index :: room.activeIndices := by
  induction tries generalizing room with
  | zero => cases h
  | succ tries ih =>
    simp only [alloc] at h
    split at h
    · obtain ⟨hfree, hactive⟩ := ih h
      exact ⟨hfree, hactive⟩
    next hfree =>
      cases h
      exact ⟨hfree, rfl⟩

theorem pinned_agrees (h : ¬room.pinnedVersion.any (· ≠ version) = true) :
    (∀ pinned, room.pinnedVersion = some pinned → pinned = version) ∧
      room.pinnedVersion.getD version = version := by
  cases hpinned : room.pinnedVersion with
  | none => simp
  | some pinned => simpa [hpinned] using h

theorem admitted_addPeer (h : room.addPeer id pubkey version = .ok (room', peer)) :
    room.Admitted id pubkey version room' peer := by
  unfold addPeer at h
  split at h
  · cases h
  next hended =>
  split at h
  · cases h
  next hspace =>
  split at h
  · cases h
  next hversion =>
  split at h
  · cases h
  next halloc =>
    cases h
    obtain ⟨hagrees, hpin⟩ := pinned_agrees hversion
    obtain ⟨hfree, hactive⟩ := alloc_free halloc
    exact ⟨Bool.eq_false_iff.2 hended, Nat.lt_of_not_le hspace, hfree, ⟨rfl, rfl⟩, hagrees, rfl, hactive,
      congrArg some hpin⟩

theorem admitted_addPeerAtIndex (h : room.addPeerAtIndex id pubkey version index = .ok (room', peer)) :
    room.Admitted id pubkey version room' peer := by
  unfold addPeerAtIndex at h
  split at h
  · cases h
  next hended =>
  split at h
  · cases h
  next hspace =>
  split at h
  · cases h
  next hversion =>
    cases h
    obtain ⟨hagrees, hpin⟩ := pinned_agrees hversion
    obtain ⟨hspace, hfree⟩ := not_or.1 hspace
    exact ⟨Bool.eq_false_iff.2 hended, Nat.lt_of_not_le hspace, hfree, ⟨rfl, rfl⟩, hagrees, rfl, rfl,
      congrArg some hpin⟩

def has (room : Room) (id : PeerId) : Bool := (room.peers.lookup id).isSome

theorem Admitted.has_iff (h : room.Admitted id pubkey version room' peer) :
    room'.has id' = (decide (id' = id) || room.has id') := by
  simp only [has, h.peers, Dict.lookup_insert_if]
  split_ifs with heq <;> simp [heq]

theorem has_addPeer (h : room.addPeer id pubkey version = .ok (room', peer)) :
    room'.has id' = (decide (id' = id) || room.has id') := (admitted_addPeer h).has_iff

theorem has_removePeer (h : room.removePeer id = some room') :
    room'.has id' = (!decide (id' = id) && room.has id') := by
  obtain ⟨peer, -, rfl⟩ := Option.map_eq_some_iff.1 h
  simp only [has, Dict.lookup_erase_if]
  split_ifs with heq <;> simp [heq]

theorem ended_removePeer (h : room.removePeer id = some room') : room'.ended = room.ended := by
  obtain ⟨peer, -, rfl⟩ := Option.map_eq_some_iff.1 h
  rfl

theorem removePeerAndCheckEnded_eq {ended : Bool}
    (h : room.removePeerAndCheckEnded id = some (room', ended)) :
    ∃ removed, room.removePeer id = some removed ∧ room' = { removed with ended := room.ended || ended } ∧
      (ended = true → room.ended = false) := by
  obtain ⟨removed, hremoved, heq⟩ := Option.map_eq_some_iff.1 h
  rw [← ended_removePeer hremoved]
  refine ⟨removed, hremoved, ?_⟩
  split at heq
  next hends =>
    cases heq
    simp only [Bool.and_eq_true, Bool.not_eq_true'] at hends
    exact ⟨by rw [Bool.or_true], fun _ => hends.1⟩
  next =>
    cases heq
    exact ⟨by rw [Bool.or_false], fun hended => by cases hended⟩

theorem has_removePeerAndCheckEnded {ended : Bool}
    (h : room.removePeerAndCheckEnded id = some (room', ended)) :
    room'.has id' = (!decide (id' = id) && room.has id') := by
  obtain ⟨removed, hremoved, hroom, -⟩ := removePeerAndCheckEnded_eq h
  rw [← has_removePeer hremoved, hroom]
  rfl

theorem isEmpty_iff : room.isEmpty = true ↔ ∀ id, room.has id = false := by
  simp only [isEmpty, has, List.isEmpty_iff]
  constructor
  · intro h id
    rw [AList.lookup, h]
    rfl
  · intro h
    refine List.eq_nil_iff_forall_not_mem.2 fun e he => ?_
    have hlookup := (Dict.mem_lookup_entries room.peers e.1 e.2).2 he
    have hnone := h e.1
    rw [hlookup] at hnone
    cases hnone

def indices (room : Room) : List Nat := room.peers.entries.map fun e => e.2.peerIndex

/-- The active indices are those of the peers, one each, and all speak the pinned version. -/
structure Sound (room : Room) : Prop where
  active : room.activeIndices.Perm room.indices
  distinct : room.indices.Nodup
  atMost : room.peers.entries.length ≤ maxPeersPerRoom
  version : ∀ e ∈ room.peers.entries, room.pinnedVersion = some e.2.protocolVersion

theorem sound_new : Room.new.Sound := ⟨.refl _, .nil, Nat.zero_le _, by simp [Room.new]⟩

theorem Admitted.entries (h : room.Admitted id pubkey version room' peer) (hfresh : room.has id = false) :
    room'.peers.entries = ⟨id, peer⟩ :: room.peers.entries := by
  have hmem : id ∉ room.peers := by
    intro hin
    rw [has, AList.lookup_isSome.2 hin] at hfresh
    cases hfresh
  rw [h.peers, AList.entries_insert_of_notMem hmem]

theorem Sound.admitted (hroom : room.Sound) (h : room.Admitted id pubkey version room' peer)
    (hfresh : room.has id = false) : room'.Sound := by
  have hentries := h.entries hfresh
  have hindices : room'.indices = peer.peerIndex :: room.indices := by
    rw [indices, hentries, List.map_cons, ← indices]
  refine ⟨?_, ?_, ?_, ?_⟩
  · rw [h.active, hindices]
    exact hroom.active.cons _
  · rw [hindices]
    exact List.nodup_cons.2 ⟨fun hin => h.free (hroom.active.mem_iff.2 hin), hroom.distinct⟩
  · rw [hentries]
    exact h.space
  · rw [hentries, h.pinned]
    refine List.forall_mem_cons.2 ⟨congrArg some h.requested.2.symm, fun e he => ?_⟩
    rw [h.agrees _ (hroom.version e he)]

theorem entries_removePeer (h : room.removePeer id = some room') :
    ∃ peer, room.peers.lookup id = some peer ∧
      room.peers.entries.Perm (⟨id, peer⟩ :: room'.peers.entries) ∧
      room'.activeIndices = room.activeIndices.filter (· ≠ peer.peerIndex) ∧
      room'.pinnedVersion = room.pinnedVersion := by
  obtain ⟨peer, hlookup, rfl⟩ := Option.map_eq_some_iff.1 h
  have hkey : id ∈ room.peers.entries.keys :=
    AList.mem_keys.1 (AList.lookup_isSome.1 (by rw [hlookup]; rfl))
  obtain ⟨peer', before, after, -, hsplit, herase⟩ := List.exists_of_kerase hkey
  have hmem : (⟨id, peer'⟩ : Σ _ : PeerId, AudioPeer) ∈ room.peers.entries := by simp [hsplit]
  obtain rfl : peer' = peer :=
    Option.some.inj (((Dict.mem_lookup_entries _ _ _).2 hmem).symm.trans hlookup)
  refine ⟨peer', hlookup, ?_, rfl, rfl⟩
  have herased : (room.peers.erase id).entries = before ++ after := herase
  rw [herased, hsplit]
  exact List.perm_middle

theorem Sound.removePeer (hroom : room.Sound) (h : room.removePeer id = some room') : room'.Sound := by
  obtain ⟨peer, -, hperm, hactive, hpinned⟩ := entries_removePeer h
  have hindices : room.indices.Perm (peer.peerIndex :: room'.indices) :=
    hperm.map fun e : (Σ _ : PeerId, AudioPeer) => e.2.peerIndex
  obtain ⟨hgone, hdistinct⟩ := List.nodup_cons.1 (hindices.nodup_iff.1 hroom.distinct)
  refine ⟨?_, hdistinct, ?_, ?_⟩
  · have hfilter := (hroom.active.trans hindices).filter (· ≠ peer.peerIndex)
    have hrest : room'.indices.filter (· ≠ peer.peerIndex) = room'.indices :=
      List.filter_eq_self.2 fun i hi => decide_eq_true fun heq => hgone (heq ▸ hi)
    rw [hactive]
    rwa [List.filter_cons_of_neg (by simp), hrest] at hfilter
  · have hlength := hperm.length_eq
    have := hroom.atMost
    simp only [List.length_cons] at hlength
    omega
  · intro e he
    rw [hpinned]
    exact hroom.version e (hperm.mem_iff.2 (List.mem_cons_of_mem _ he))

theorem Sound.with_ended (hroom : room.Sound) (ended : Bool) : ({ room with ended } : Room).Sound :=
  ⟨hroom.active, hroom.distinct, hroom.atMost, hroom.version⟩

end Room

end Colony.Audio
