import Mathlib.Data.List.Sort
import Colony.Defs.Audio.Room

namespace Colony.Audio

open Colony.Core Colony.Data

structure RosterPeer where
  pubkey : String
  peerIndex : Nat
  epoch : Nat
  deriving DecidableEq

def RosterPeer.Before (a b : RosterPeer) : Prop := a.peerIndex ≤ b.peerIndex

instance : DecidableRel RosterPeer.Before := fun a b => inferInstanceAs (Decidable (a.peerIndex ≤ b.peerIndex))

def AudioPeer.rosterPeer (peer : AudioPeer) : RosterPeer := ⟨peer.pubkey, peer.peerIndex, peer.epoch⟩

structure RosterDelta where
  revision : Nat
  joined : Option RosterPeer
  left : Option RosterPeer

structure RosterSnapshot where
  revision : Nat
  peers : List RosterPeer

def Room.roster (room : Room) : List RosterPeer :=
  (room.peers.entries.map fun e => e.2.rosterPeer).insertionSort RosterPeer.Before

def revisionCount : Nat := 2 ^ 64

def rosterChannelCapacity : Nat := 64

/-- A room with the revision of its roster, and all that was ever sent into its channel. -/
structure RoomOwner where
  room : Room := Room.new
  rosterRevision : Nat := 0
  rosterTx : List RosterDelta := []
  admitted : Nat := 0

namespace RoomOwner

variable (o : RoomOwner)

def rosterSnapshot : RosterSnapshot := ⟨o.rosterRevision, o.room.roster⟩

/-- The place of the oldest change that the channel has, of the last `kept` or of as many as it can
hold. -/
def oldest (kept : Nat) : Nat := o.rosterTx.length - min kept rosterChannelCapacity

def publish (room : Room) (joined left : Option RosterPeer) : RoomOwner :=
  let revision := (o.rosterRevision + 1) % revisionCount
  { o with
    room
    rosterRevision := revision
    rosterTx := o.rosterTx ++ [⟨revision, joined, left⟩] }

def admission : Except AdmissionError (Room × AudioPeer) → RoomOwner
  | .ok (room, peer) => { o.publish room (some peer.rosterPeer) none with admitted := o.admitted + 1 }
  | .error _ => o

def removal (id : PeerId) : Option Room → RoomOwner
  | some room => o.publish room none ((o.room.peers.lookup id).map AudioPeer.rosterPeer)
  | none => o

inductive Call
  | addPeer (pubkey : String) (version : Nat)
  | addPeerAtIndex (pubkey : String) (version peerIndex : Nat)
  | removePeer (id : Nat)
  | removePeerAndCheckEnded (id : Nat)
  -- `mark_ended` and `clear_ended`.
  | setEnded (ended : Bool)

def call : Call → RoomOwner
  | .addPeer pubkey version => o.admission (o.room.addPeer (.other o.admitted) pubkey version)
  | .addPeerAtIndex pubkey version peerIndex =>
    o.admission (o.room.addPeerAtIndex (.other o.admitted) pubkey version peerIndex)
  | .removePeer id => o.removal (.other id) (o.room.removePeer (.other id))
  | .removePeerAndCheckEnded id =>
    o.removal (.other id) ((o.room.removePeerAndCheckEnded (.other id)).map Prod.fst)
  | .setEnded ended => { o with room := { o.room with ended } }

end RoomOwner

inductive RosterMsg
  | snapshot (snapshot : RosterSnapshot)
  | delta (delta : RosterDelta)

def RosterSnapshot.apply (roster : RosterSnapshot) (delta : RosterDelta) : RosterSnapshot where
  revision := delta.revision
  peers :=
    match delta.joined, delta.left with
    | some peer, _ =>
      (roster.peers.filter (·.peerIndex ≠ peer.peerIndex)).orderedInsert RosterPeer.Before peer
    | none, some peer => roster.peers.filter (·.peerIndex ≠ peer.peerIndex)
    | none, none => roster.peers

def readOwnerControl (roster : RosterSnapshot) : RosterMsg → RosterSnapshot × Bool
  | .snapshot snapshot => (snapshot, false)
  | .delta delta =>
    if delta.revision = (roster.revision + 1) % revisionCount then (roster.apply delta, false)
    else if delta.revision ≤ roster.revision then (roster, false)
    else (roster, true)

/-- A control stream after the registration: the receiver's place in what was sent, the messages and
the requests on their way, and what the other side has. -/
structure Following where
  next : Nat
  inFlight : List RosterMsg
  requests : Nat
  roster : RosterSnapshot

namespace Following

variable (f : Following) (o : RoomOwner)

def sendSnapshot : Following := { f with inFlight := f.inFlight ++ [.snapshot o.rosterSnapshot] }

/-- The owner reads its receiver, of a channel that still has the last `kept` changes: a receiver that
has missed some is put to the oldest of them, and a snapshot is sent in their place. -/
def forward (kept : Nat) : Following :=
  if f.next < o.oldest kept then { f with next := o.oldest kept }.sendSnapshot o
  else match o.rosterTx[f.next]? with
    | some delta => { f with next := f.next + 1, inFlight := f.inFlight ++ [.delta delta] }
    | none => f

def deliver : Following :=
  match f.inFlight with
  | [] => f
  | msg :: rest =>
    { f with
      inFlight := rest
      roster := (readOwnerControl f.roster msg).1
      requests := if (readOwnerControl f.roster msg).2 then f.requests + 1 else f.requests }

def resync : Following :=
  if f.requests = 0 then f else { f with requests := f.requests - 1 }.sendSnapshot o

end Following

inductive FollowerSession
  | unsubscribed
  | subscribed (next : Nat)
  | following (f : Following)

structure HuddleRoster where
  owner : RoomOwner := {}
  session : FollowerSession := .unsubscribed

namespace HuddleRoster

inductive Event
  | room (call : RoomOwner.Call)
  | subscribe
  -- The reply to the registration, with the snapshot that the follower begins with.
  | register
  | forward (kept : Nat)
  | deliver
  | resync
  | close

def step (s : HuddleRoster) : Event → HuddleRoster
  | .room call => { s with owner := s.owner.call call }
  | .subscribe => { s with session := .subscribed s.owner.rosterTx.length }
  | .register =>
    match s.session with
    | .subscribed next => { s with session := .following ⟨next, [], 0, s.owner.rosterSnapshot⟩ }
    | _ => s
  | .forward kept =>
    match s.session with
    | .following f => { s with session := .following (f.forward s.owner kept) }
    | _ => s
  | .deliver =>
    match s.session with
    | .following f => { s with session := .following f.deliver }
    | _ => s
  | .resync =>
    match s.session with
    | .following f => { s with session := .following (f.resync s.owner) }
    | _ => s
  | .close => { s with session := .unsubscribed }

def run (events : List Event) : HuddleRoster := runFrom step {} events

def follower (s : HuddleRoster) : Option RosterSnapshot :=
  match s.session with
  | .following f => some f.roster
  | _ => none

end HuddleRoster

def rosterAt (log : List RosterDelta) (k : Nat) : RosterSnapshot :=
  (log.take k).foldl RosterSnapshot.apply ⟨0, []⟩

theorem rosterAt_append {log more : List RosterDelta} {k : Nat} (hk : k ≤ log.length) :
    rosterAt (log ++ more) k = rosterAt log k := by
  rw [rosterAt, List.take_append_of_le_length hk, ← rosterAt]

theorem rosterAt_succ {log : List RosterDelta} {k : Nat} {delta : RosterDelta}
    (h : log[k]? = some delta) : rosterAt log (k + 1) = (rosterAt log k).apply delta := by
  rw [rosterAt, List.take_add_one, h, List.foldl_append]
  rfl

namespace RoomOwner

variable {o : RoomOwner} {room : Room} {id : PeerId} {pubkey : String} {version : Nat} {peer : AudioPeer}

instance : Std.Total RosterPeer.Before := ⟨fun a b => Nat.le_total a.peerIndex b.peerIndex⟩

instance : IsTrans RosterPeer RosterPeer.Before := ⟨fun _ _ _ => Nat.le_trans⟩

theorem roster_perm (room : Room) : room.roster.Perm (room.peers.entries.map fun e => e.2.rosterPeer) :=
  List.perm_insertionSort _ _

theorem roster_distinct (hsound : room.Sound) : (room.roster.map RosterPeer.peerIndex).Nodup := by
  have hperm := (roster_perm room).map RosterPeer.peerIndex
  rw [List.map_map] at hperm
  exact hperm.nodup_iff.2 hsound.distinct

theorem roster_admitted {room' : Room} (h : room.Admitted id pubkey version room' peer)
    (hfresh : room.has id = false) :
    room'.roster = room.roster.orderedInsert RosterPeer.Before peer.rosterPeer := by
  rw [Room.roster, h.entries hfresh, List.map_cons, List.insertionSort_cons, ← Room.roster]

theorem roster_removed {room' : Room} (hsound : room.Sound)
    (hperm : room.peers.entries.Perm (⟨id, peer⟩ :: room'.peers.entries)) :
    room'.roster = room.roster.filter (·.peerIndex ≠ peer.peerIndex) := by
  have hroster : room.roster.Perm (peer.rosterPeer :: room'.roster) :=
    ((roster_perm room).trans (hperm.map fun e : (Σ _ : PeerId, AudioPeer) => e.2.rosterPeer)).trans
      ((roster_perm room').symm.cons _)
  have hdistinct : ((peer.rosterPeer :: room'.roster).map RosterPeer.peerIndex).Nodup :=
    (hroster.map _).nodup_iff.1 (roster_distinct hsound)
  obtain ⟨hgone, -⟩ := List.nodup_cons.1 hdistinct
  have hrest : room'.roster.filter (·.peerIndex ≠ peer.peerIndex) = room'.roster :=
    List.filter_eq_self.2 fun p hp => decide_eq_true fun heq => hgone (List.mem_map.2 ⟨p, hp, heq⟩)
  have hfilter := hroster.filter (·.peerIndex ≠ peer.peerIndex)
  rw [List.filter_cons_of_neg (by simp [AudioPeer.rosterPeer]), hrest] at hfilter
  refine hfilter.symm.eq_of_pairwise (fun a b ha hb hab hba => ?_) (List.pairwise_insertionSort _ _)
    ((List.pairwise_insertionSort _ _).filter _)
  exact List.inj_on_of_nodup_map hdistinct (List.mem_cons_of_mem _ ha)
    (hroster.mem_iff.1 (List.mem_of_mem_filter hb)) (Nat.le_antisymm hab hba)

structure Logged (o : RoomOwner) : Prop where
  sound : o.room.Sound
  fresh : ∀ n, o.admitted ≤ n → o.room.has (.other n) = false
  roster : o.rosterSnapshot = rosterAt o.rosterTx o.rosterTx.length
  revisions : ∀ k, k ≤ o.rosterTx.length → (rosterAt o.rosterTx k).revision = k % revisionCount

theorem logged_new : ({} : RoomOwner).Logged := by
  refine ⟨Room.sound_new, fun n _ => rfl, rfl, fun k hk => ?_⟩
  obtain rfl : k = 0 := Nat.le_zero.1 hk
  rfl

theorem Logged.publish {joined left : Option RosterPeer} {admitted : Nat} (h : o.Logged) (hsound : room.Sound)
    (hfresh : ∀ n, admitted ≤ n → room.has (.other n) = false)
    (hroster : ∀ revision, (o.rosterSnapshot.apply ⟨revision, joined, left⟩).peers = room.roster) :
    { o.publish room joined left with admitted }.Logged := by
  have hlast : rosterAt (o.publish room joined left).rosterTx (o.rosterTx.length + 1) =
      ⟨(o.rosterRevision + 1) % revisionCount, room.roster⟩ := by
    simp only [RoomOwner.publish]
    rw [rosterAt_succ List.getElem?_concat_length, rosterAt_append (Nat.le_refl _), ← h.roster, ← hroster]
    rfl
  have hrevision : o.rosterRevision = o.rosterTx.length % revisionCount := by
    rw [← h.revisions _ (Nat.le_refl _), ← h.roster]
    rfl
  refine ⟨hsound, hfresh, ?_, fun k hk => ?_⟩
  · simpa [RoomOwner.publish, rosterSnapshot] using hlast.symm
  · obtain hle | rfl := Nat.le_or_eq_of_le_succ (by simpa [RoomOwner.publish] using hk)
    · simp only [RoomOwner.publish]
      rw [rosterAt_append hle]
      exact h.revisions k hle
    · rw [hlast, hrevision]
      exact Nat.mod_add_mod _ _ _

theorem Logged.admission {result : Except AdmissionError (Room × AudioPeer)} (h : o.Logged)
    (hresult : ∀ room peer, result = .ok (room, peer) →
      o.room.Admitted (.other o.admitted) pubkey version room peer) :
    (o.admission result).Logged := by
  cases result with
  | error e => exact h
  | ok added =>
    obtain ⟨room, peer⟩ := added
    have hadmitted := hresult room peer rfl
    have hfresh := h.fresh o.admitted (Nat.le_refl _)
    refine h.publish (h.sound.admitted hadmitted hfresh) (fun n hn => ?_) fun revision => ?_
    · rw [hadmitted.has_iff, h.fresh n (by omega), Bool.or_false]
      exact decide_eq_false fun heq => by cases heq; omega
    · have hfree : o.room.roster.filter (·.peerIndex ≠ peer.peerIndex) = o.room.roster := by
        refine List.filter_eq_self.2 fun p hp => decide_eq_true fun heq => hadmitted.free ?_
        obtain ⟨e, he, rfl⟩ := List.mem_map.1 ((roster_perm o.room).mem_iff.1 hp)
        exact h.sound.active.mem_iff.2 (List.mem_map.2 ⟨e, he, heq⟩)
      rw [roster_admitted hadmitted hfresh, ← hfree]
      rfl

theorem Logged.removal {result : Option Room} (h : o.Logged)
    (hresult : ∀ room, result = some room →
      ∃ removed ended, o.room.removePeer id = some removed ∧ room = { removed with ended }) :
    (o.removal id result).Logged := by
  cases result with
  | none => exact h
  | some room =>
    obtain ⟨removed, ended, hremoved, rfl⟩ := hresult room rfl
    obtain ⟨peer, hpeer, hperm, -⟩ := Room.entries_removePeer hremoved
    refine h.publish ((h.sound.removePeer hremoved).with_ended ended) (fun n hn => ?_) fun revision => ?_
    · have hhas : removed.has (.other n) = (!decide (_ = id) && o.room.has (.other n)) :=
        Room.has_removePeer hremoved
      rw [h.fresh n hn, Bool.and_false] at hhas
      exact hhas
    · rw [hpeer]
      exact (roster_removed h.sound hperm).symm

theorem Logged.call (h : o.Logged) (call : Call) : (o.call call).Logged := by
  cases call with
  | addPeer pubkey version => exact h.admission fun room peer hok => Room.admitted_addPeer hok
  | addPeerAtIndex pubkey version index =>
    exact h.admission fun room peer hok => Room.admitted_addPeerAtIndex hok
  | removePeer n =>
    refine h.removal fun room hroom => ⟨room, room.ended, hroom, rfl⟩
  | removePeerAndCheckEnded n =>
    refine h.removal fun room hroom => ?_
    obtain ⟨⟨room', ends⟩, hremove, rfl⟩ := Option.map_eq_some_iff.1 hroom
    obtain ⟨removed, hremoved, heq, -⟩ := Room.removePeerAndCheckEnded_eq hremove
    exact ⟨removed, _, hremoved, heq⟩
  | setEnded ended => exact ⟨h.sound.with_ended ended, h.fresh, h.roster, h.revisions⟩

theorem rosterTx_call (call : Call) :
    (o.call call).rosterTx = o.rosterTx ∨ ∃ delta, (o.call call).rosterTx = o.rosterTx ++ [delta] := by
  have hadmission : ∀ result, (o.admission result).rosterTx = o.rosterTx ∨
      ∃ delta, (o.admission result).rosterTx = o.rosterTx ++ [delta] := by
    intro result
    cases result with
    | error e => exact .inl rfl
    | ok added => exact .inr ⟨_, rfl⟩
  have hremoval : ∀ id result, (o.removal id result).rosterTx = o.rosterTx ∨
      ∃ delta, (o.removal id result).rosterTx = o.rosterTx ++ [delta] := by
    intro id result
    cases result with
    | none => exact .inl rfl
    | some room => exact .inr ⟨_, rfl⟩
  cases call with
  | addPeer => exact hadmission _
  | addPeerAtIndex => exact hadmission _
  | removePeer => exact hremoval _ _
  | removePeerAndCheckEnded => exact hremoval _ _
  | setEnded => exact .inl rfl

end RoomOwner

/-- With the messages on their way, a follower at `k` comes to where the receiver is or further, and
every change among them is the next one or one of the last that it has already. -/
def Tracks (log : List RosterDelta) (next : Nat) : Nat → List RosterMsg → Prop
  | k, [] => next ≤ k
  | _, .snapshot snapshot :: msgs =>
    ∃ k ≤ log.length, snapshot = rosterAt log k ∧ Tracks log next k msgs
  | k, .delta delta :: msgs =>
    ∃ j, log[j]? = some delta ∧ j ≤ k ∧ k ≤ j + rosterChannelCapacity ∧
      Tracks log next (if j = k then k + 1 else k) msgs

section Tracks

variable {log : List RosterDelta} {next next' k : Nat} {msgs tail : List RosterMsg}

theorem Tracks.append (h : Tracks log next k msgs) (hk : k ≤ log.length)
    (htail : ∀ k', next ≤ k' → k' ≤ log.length → Tracks log next' k' tail) :
    Tracks log next' k (msgs ++ tail) := by
  induction msgs generalizing k with
  | nil => exact htail k h hk
  | cons msg msgs ih =>
    cases msg with
    | snapshot snapshot =>
      obtain ⟨k', hk', hsnapshot, hmsgs⟩ := h
      exact ⟨k', hk', hsnapshot, ih hmsgs hk'⟩
    | delta delta =>
      obtain ⟨j, hj, hle, hnear, hmsgs⟩ := h
      refine ⟨j, hj, hle, hnear, ih hmsgs ?_⟩
      have hlt := (List.getElem?_eq_some_iff.1 hj).1
      split <;> omega

theorem Tracks.grow {more : List RosterDelta} (h : Tracks log next k msgs) :
    Tracks (log ++ more) next k msgs := by
  induction msgs generalizing k with
  | nil => exact h
  | cons msg msgs ih =>
    cases msg with
    | snapshot snapshot =>
      obtain ⟨k', hk', hsnapshot, hmsgs⟩ := h
      refine ⟨k', ?_, ?_, ih hmsgs⟩
      · rw [List.length_append]
        omega
      · rw [rosterAt_append hk', hsnapshot]
    | delta delta =>
      obtain ⟨j, hj, hle, hnear, hmsgs⟩ := h
      refine ⟨j, ?_, hle, hnear, ih hmsgs⟩
      rw [List.getElem?_append_left (List.getElem?_eq_some_iff.1 hj).1, hj]

end Tracks

namespace Following

variable {f : Following} {o : RoomOwner}

def Placed (f : Following) (log : List RosterDelta) : Prop :=
  f.next ≤ log.length ∧
    ∃ k ≤ log.length, f.roster = rosterAt log k ∧ Tracks log f.next k f.inFlight

theorem Placed.sendSnapshot (h : f.Placed o.rosterTx) (ho : o.Logged) {next : Nat}
    (hnext : next ≤ o.rosterTx.length) : ({ f with next }.sendSnapshot o).Placed o.rosterTx := by
  obtain ⟨-, k, hk, hroster, htracks⟩ := h
  refine ⟨hnext, k, hk, hroster, htracks.append hk fun k' _ _ => ?_⟩
  exact ⟨o.rosterTx.length, Nat.le_refl _, ho.roster, hnext⟩

theorem Placed.forward (h : f.Placed o.rosterTx) (ho : o.Logged) (kept : Nat) :
    (f.forward o kept).Placed o.rosterTx := by
  unfold Following.forward
  split
  · exact h.sendSnapshot ho (Nat.sub_le _ _)
  next holdest =>
    split
    next delta hdelta =>
      obtain ⟨-, k, hk, hroster, htracks⟩ := h
      refine ⟨(List.getElem?_eq_some_iff.1 hdelta).1, k, hk, hroster, htracks.append hk fun k' hle hk' => ?_⟩
      -- The channel has no more than its capacity, so the follower is not further ahead than that.
      refine ⟨f.next, hdelta, hle, ?_, ?_⟩
      · simp only [RoomOwner.oldest] at holdest
        omega
      · simp only [Tracks]
        split <;> omega
    next => exact h

theorem Placed.resync (h : f.Placed o.rosterTx) (ho : o.Logged) : (f.resync o).Placed o.rosterTx := by
  unfold Following.resync
  split
  · exact h
  · exact Placed.sendSnapshot (f := { f with requests := f.requests - 1 }) h ho h.1

theorem readOwnerControl_delta {k j : Nat} {delta : RosterDelta} (ho : o.Logged) (hk : k ≤ o.rosterTx.length)
    (hj : o.rosterTx[j]? = some delta) (hle : j ≤ k) (hnear : k ≤ j + rosterChannelCapacity) :
    (readOwnerControl (rosterAt o.rosterTx k) (.delta delta)).1 =
      rosterAt o.rosterTx (if j = k then k + 1 else k) := by
  have hlt := (List.getElem?_eq_some_iff.1 hj).1
  have hrevision : delta.revision = (j + 1) % revisionCount := by
    rw [← ho.revisions (j + 1) hlt, rosterAt_succ hj]
    rfl
  simp only [readOwnerControl, ho.revisions k hk, hrevision]
  by_cases hsame : j = k
  · subst hsame
    rw [if_pos (Nat.mod_add_mod _ _ _).symm, if_pos rfl, rosterAt_succ hj]
  · have hother : ¬(j + 1) % revisionCount = (k % revisionCount + 1) % revisionCount := by
      rw [Nat.mod_add_mod]
      simp only [revisionCount, rosterChannelCapacity] at *
      omega
    rw [if_neg hother, if_neg hsame]
    split <;> rfl

theorem Placed.deliver (h : f.Placed o.rosterTx) (ho : o.Logged) : f.deliver.Placed o.rosterTx := by
  obtain ⟨hnext, k, hk, hroster, htracks⟩ := h
  unfold Following.deliver
  cases hflight : f.inFlight with
  | nil => exact ⟨hnext, k, hk, hroster, htracks⟩
  | cons msg rest =>
    rw [hflight] at htracks
    cases msg with
    | snapshot snapshot =>
      obtain ⟨k', hk', hsnapshot, hrest⟩ := htracks
      exact ⟨hnext, k', hk', hsnapshot, hrest⟩
    | delta delta =>
      obtain ⟨j, hj, hle, hnear, hrest⟩ := htracks
      refine ⟨hnext, _, ?_, ?_, hrest⟩
      · have hlt := (List.getElem?_eq_some_iff.1 hj).1
        split <;> omega
      · rw [← readOwnerControl_delta ho hk hj hle hnear, ← hroster]

end Following

namespace HuddleRoster

variable {s : HuddleRoster}

structure Replicates (s : HuddleRoster) : Prop where
  owner : s.owner.Logged
  subscribed : ∀ next, s.session = .subscribed next → next ≤ s.owner.rosterTx.length
  following : ∀ f, s.session = .following f → f.Placed s.owner.rosterTx

theorem replicates_step (event : Event) (h : s.Replicates) : (s.step event).Replicates := by
  have hfollowing : ∀ {f' : Following}, f'.Placed s.owner.rosterTx →
      ({ s with session := .following f' } : HuddleRoster).Replicates := by
    intro f' hplaced
    refine ⟨h.owner, fun next heq => ?_, fun f heq => ?_⟩
    · cases heq
    · cases heq
      exact hplaced
  cases event with
  | room call =>
    refine ⟨h.owner.call call, fun next heq => ?_, fun f heq => ?_⟩
    · have hle := h.subscribed next heq
      obtain hsame | ⟨delta, hmore⟩ := s.owner.rosterTx_call call
      · exact hsame ▸ hle
      · exact hmore ▸ hle.trans (by simp)
    · obtain ⟨hnext, k, hk, hroster, htracks⟩ := h.following f heq
      obtain hsame | ⟨delta, hmore⟩ := s.owner.rosterTx_call call
      · exact hsame ▸ ⟨hnext, k, hk, hroster, htracks⟩
      · simp only [step, hmore]
        refine ⟨hnext.trans (by simp), k, hk.trans (by simp), ?_, htracks.grow⟩
        rw [rosterAt_append hk, hroster]
  | subscribe =>
    refine ⟨h.owner, fun next heq => ?_, fun f heq => ?_⟩
    · cases heq
      exact Nat.le_refl _
    · cases heq
  | register =>
    simp only [step]
    split
    next next heq =>
      have hnext := h.subscribed next heq
      exact hfollowing ⟨hnext, _, Nat.le_refl _, h.owner.roster, hnext⟩
    next => exact h
  | forward kept =>
    simp only [step]
    split
    next f heq => exact hfollowing ((h.following f heq).forward h.owner kept)
    next => exact h
  | deliver =>
    simp only [step]
    split
    next f heq => exact hfollowing ((h.following f heq).deliver h.owner)
    next => exact h
  | resync =>
    simp only [step]
    split
    next f heq => exact hfollowing ((h.following f heq).resync h.owner)
    next => exact h
  | close => exact ⟨h.owner, fun _ heq => (by cases heq), fun _ heq => (by cases heq)⟩

theorem replicates_run (events : List Event) : (run events).Replicates := by
  refine runFrom_history (p := fun _ (s : HuddleRoster) => s.Replicates) ?_ (fun _ event h => replicates_step event h) events
  exact ⟨RoomOwner.logged_new, fun _ heq => (by cases heq), fun _ heq => (by cases heq)⟩

def log (s : HuddleRoster) : List RosterDelta := s.owner.rosterTx

theorem log_step (s : HuddleRoster) (event : Event) :
    log (step s event) = log s ∨ ∃ delta, log (step s event) = log s ++ [delta] := by
  cases event with
  | room call => exact s.owner.rosterTx_call call
  | subscribe => exact .inl rfl
  | close => exact .inl rfl
  | register => exact .inl (by simp only [log, step]; split <;> rfl)
  | forward kept => exact .inl (by simp only [log, step]; split <;> rfl)
  | deliver => exact .inl (by simp only [log, step]; split <;> rfl)
  | resync => exact .inl (by simp only [log, step]; split <;> rfl)

theorem rosterSnapshot_of_log {before : List Event} {log : List RosterDelta} {k : Nat} (hk : k ≤ log.length)
    (h : (run before).log = log.take k) : (run before).owner.rosterSnapshot = rosterAt log k := by
  have hlog : (run before).owner.rosterTx = log.take k := h
  rw [(replicates_run before).owner.roster, hlog, rosterAt, rosterAt, List.take_take, List.length_take,
    Nat.min_eq_left hk, Nat.min_self]

/-- The room is sound in every run, and what a follower has is what the room had at some moment, with
its revision; as long as revisions have not come round, it is what the room had whenever it was at
that revision. -/
theorem follower_has_roster (events : List Event) :
    (run events).owner.room.Sound ∧
      ∀ roster, (run events).follower = some roster →
        (∃ before, before <+: events ∧ (run before).owner.rosterSnapshot = roster) ∧
        (events.length < revisionCount → ∀ before, before <+: events →
          (run before).owner.rosterRevision = roster.revision →
          (run before).owner.room.roster = roster.peers) := by
  have hrun := replicates_run events
  refine ⟨hrun.owner.sound, fun roster hroster => ?_⟩
  obtain ⟨f, hsession, rfl⟩ : ∃ f, (run events).session = .following f ∧ f.roster = roster := by
    unfold follower at hroster
    split at hroster
    next f hsession => exact ⟨f, hsession, Option.some.inj hroster⟩
    next => cases hroster
  obtain ⟨-, k, hk, hplace, -⟩ := hrun.following f hsession
  constructor
  · obtain ⟨before, hbefore, hlog⟩ :
        ∃ before, before <+: events ∧ (run before).log = (run events).log.take k :=
      exists_log_eq_take log_step rfl hk
    exact ⟨before, hbefore, (rosterSnapshot_of_log hk hlog).trans hplace.symm⟩
  · intro hcount before hbefore hrevision
    have hlength : (run events).log.length ≤ 0 + events.length := length_log_le log_step {} events
    have hprefix : (run before).log <+: (run events).log := log_prefix_of_prefix log_step hbefore
    have hle := hprefix.length_le
    -- Both revisions count the changes made, so these are the same.
    have hsame : (run before).log.length = k := by
      have howner := (replicates_run before).owner
      have hcounted : (run before).owner.rosterRevision = (run before).log.length % revisionCount := by
        rw [log, ← howner.revisions _ (Nat.le_refl _), ← howner.roster]
        rfl
      rw [hcounted, hplace, hrun.owner.revisions k hk] at hrevision
      have hk' : k ≤ (run events).log.length := hk
      rw [Nat.mod_eq_of_lt (by omega), Nat.mod_eq_of_lt (by omega)] at hrevision
      exact hrevision
    have hlog := List.prefix_iff_eq_take.1 hprefix
    rw [hsame] at hlog
    rw [hplace, ← rosterSnapshot_of_log hk hlog]
    rfl

def joinsLate : List Event :=
  [.room (.addPeer "a" 3), .subscribe, .room (.addPeer "b" 3), .register, .room (.removePeer 0), .forward 64,
    .forward 64, .deliver, .deliver]

theorem follower_has_roster_joinsLate :
    (run joinsLate).follower = some ⟨3, [⟨"b", 1, 0⟩]⟩ ∧
      ∃ before, before <+: joinsLate ∧ (run before).owner.rosterSnapshot = ⟨3, [⟨"b", 1, 0⟩]⟩ :=
  have h : (run joinsLate).follower = some ⟨3, [⟨"b", 1, 0⟩]⟩ := by rfl
  ⟨h, ((follower_has_roster joinsLate).2 _ h).1⟩

end HuddleRoster

end Colony.Audio
