import Colony.Defs.Audio.Room

/-! The rooms of one pod, under the connections that come to them: each obtains the room of its
channel, may fail before it is admitted, and leaves.  What a connection awaits lets all others go on,
so every step here is what one of them does between two awaits or under one lock. -/

namespace Colony.Audio

open Colony.Core Colony.Data

abbrev RoomKey := CommunityId × Uuid

/-- All rooms that were ever made, with the channel that each is for, and which of them the manager
has. -/
structure AudioRoomManager where
  made : List (RoomKey × Room) := []
  rooms : Dict RoomKey Nat := ∅

namespace AudioRoomManager

variable (m : AudioRoomManager)

def getOrCreate (key : RoomKey) : AudioRoomManager × Nat :=
  match m.rooms.lookup key with
  | some i => (m, i)
  | none => (⟨m.made ++ [(key, Room.new)], m.rooms.insert key m.made.length⟩, m.made.length)

def cleanupIfEmpty (key : RoomKey) : AudioRoomManager :=
  if ((m.rooms.lookup key).bind (m.made[·]?)).any (·.2.isEmpty) then
    { m with rooms := m.rooms.erase key }
  else m

def set (i : Nat) (room : Room) : AudioRoomManager :=
  { m with made := m.made.modify i fun entry => (entry.1, room) }

end AudioRoomManager

def currentProtocolVersion : Nat := 3

inductive Phase
  -- It has the room and reads the channel again.
  | obtained
  | checked
  -- The owner on another pod gave it an index.
  | registered (peerIndex : Nat)
  | inRoom
  -- Its peer is removed.
  | left (shouldAutoEnd : Bool)
  | returned
  deriving DecidableEq

def Phase.waits : Phase → Bool
  | .obtained | .checked | .registered _ => true
  | _ => false

structure AudioConnection where
  key : RoomKey
  pubkey : String
  requestedVersion : Nat
  -- The huddle is owned by another pod.
  remote : Bool
  room : Nat
  phase : Phase

inductive ChannelRow
  | live
  | archived
  | failed

inductive Awaited
  | channel (row : ChannelRow)
  -- The index that the remote owner gave, if it could be reached and did not reject.
  | dialed (peerIndex : Option Nat)
  | admission
  | closed
  -- The event of the leave is emitted, and the channel archived if that is due.
  | finished (archived : Bool)

inductive HandlerAction
  | goto (phase : Phase)
  | cleanUp
  | admitPeer (peerIndex : Option Nat)
  | removePeer
  | clearEnded
  deriving DecidableEq

def AudioConnection.next (conn : AudioConnection) : Awaited → Option HandlerAction
  | .channel .live =>
    if conn.phase = .obtained then
      if conn.requestedVersion = 0 ∨ currentProtocolVersion < conn.requestedVersion then
        some (.goto .returned)
      else some (.goto .checked)
    else none
  | .channel _ => if conn.phase = .obtained then some .cleanUp else none
  | .dialed answer =>
    if conn.phase = .checked ∧ conn.remote = true then
      match answer with
      | some peerIndex => some (.goto (.registered peerIndex))
      | none => some .cleanUp
    else none
  | .admission =>
    match conn.phase with
    | .checked => if conn.remote then none else some (.admitPeer none)
    | .registered peerIndex => some (.admitPeer (some peerIndex))
    | _ => none
  | .closed => if conn.phase = .inRoom then some .removePeer else none
  | .finished archived =>
    match conn.phase with
    | .left true => if archived then some .cleanUp else some .clearEnded
    | .left false => some .cleanUp
    | _ => none

structure Pod where
  manager : AudioRoomManager := {}
  connections : List AudioConnection := []

inductive PodEvent
  | connect (key : RoomKey) (pubkey : String) (requestedVersion : Nat) (remote : Bool)
  | wake (connection : Nat) (awaited : Awaited)

namespace Pod

variable (s : Pod)

def room? (i : Nat) : Option Room := (s.manager.made[i]?).map Prod.snd

def goto (c : Nat) (phase : Phase) : Pod :=
  { s with connections := s.connections.modify c fun conn => { conn with phase } }

def move (c : Nat) (conn : AudioConnection) (room : Room) (phase : Phase) : Pod :=
  { s with manager := s.manager.set conn.room room }.goto c phase

def admitPeer (c : Nat) (conn : AudioConnection) (room : Room) (peerIndex : Option Nat) : Pod :=
  let admission := match peerIndex with
    | some peerIndex => room.addPeerAtIndex (.other c) conn.pubkey conn.requestedVersion peerIndex
    | none => room.addPeer (.other c) conn.pubkey conn.requestedVersion
  match admission with
  | .ok (room', _) => s.move c conn room' .inRoom
  | .error _ => s.goto c .returned

def removePeer (c : Nat) (conn : AudioConnection) (room : Room) : Pod :=
  let removal := if conn.remote then (room.removePeer (.other c)).map (·, false)
    else room.removePeerAndCheckEnded (.other c)
  match removal with
  | some (room', shouldAutoEnd) => s.move c conn room' (.left shouldAutoEnd)
  | none => s.goto c (.left false)

def perform (c : Nat) (conn : AudioConnection) (room : Room) : HandlerAction → Pod
  | .goto phase => s.goto c phase
  | .cleanUp => { s with manager := s.manager.cleanupIfEmpty conn.key }.goto c .returned
  | .admitPeer peerIndex => s.admitPeer c conn room peerIndex
  | .removePeer => s.removePeer c conn room
  | .clearEnded => s.move c conn { room with ended := false } .returned

def connect (key : RoomKey) (pubkey : String) (requestedVersion : Nat) (remote : Bool) : Pod :=
  let (manager, room) := s.manager.getOrCreate key
  ⟨manager, s.connections ++ [⟨key, pubkey, requestedVersion, remote, room, .obtained⟩]⟩

def step (s : Pod) : PodEvent → Pod
  | .connect key pubkey requestedVersion remote => s.connect key pubkey requestedVersion remote
  | .wake c awaited =>
    match s.connections[c]? with
    | none => s
    | some conn =>
      match s.room? conn.room, conn.next awaited with
      | some room, some action => s.perform c conn room action
      | _, _ => s

end Pod

theorem getElem?_modify_some {α : Type} {l : List α} {i j : Nat} {f : α → α} {x : α} :
    (l.modify i f)[j]? = some x ↔ ∃ y, l[j]? = some y ∧ (if i = j then f y else y) = x := by
  simp [List.getElem?_modify]

namespace Pod

variable {s : Pod} {c c' i : Nat} {conn conn' : AudioConnection} {key key' : RoomKey}
  {room room' room'' : Room} {phase : Phase}

def ConnAt (s : Pod) (c : Nat) (conn : AudioConnection) : Prop := s.connections[c]? = some conn

def RoomAt (s : Pod) (i : Nat) (key : RoomKey) (room : Room) : Prop :=
  s.manager.made[i]? = some (key, room)

theorem ConnAt.unique (h : s.ConnAt c conn) (h' : s.ConnAt c conn') : conn = conn' :=
  Option.some.inj (h.symm.trans h')

theorem RoomAt.unique (h : s.RoomAt i key room) (h' : s.RoomAt i key' room') :
    key = key' ∧ room = room' := Prod.mk.inj (Option.some.inj (h.symm.trans h'))

theorem connAt_move (hconn : s.ConnAt c conn) (h : (s.move c conn room' phase).ConnAt c' conn') :
    ∃ old, s.ConnAt c' old ∧ conn'.key = old.key ∧ conn'.room = old.room ∧
      (c = c' ∧ old = conn ∧ conn'.phase = phase ∨ c ≠ c' ∧ conn'.phase = old.phase) := by
  obtain ⟨old, hold, rfl⟩ := getElem?_modify_some.1 h
  refine ⟨old, hold, ?_⟩
  split
  next heq =>
    subst heq
    exact ⟨rfl, rfl, .inl ⟨rfl, ConnAt.unique hold hconn, rfl⟩⟩
  next hne => exact ⟨rfl, rfl, .inr ⟨hne, rfl⟩⟩

theorem roomAt_move (hroom : s.RoomAt conn.room key room)
    (h : (s.move c conn room' phase).RoomAt i key' room'') :
    i = conn.room ∧ key' = key ∧ room'' = room' ∨ i ≠ conn.room ∧ s.RoomAt i key' room'' := by
  obtain ⟨old, hold, heq⟩ := getElem?_modify_some.1 h
  split at heq
  next hsame =>
    subst hsame
    rw [hroom, Option.some.injEq] at hold
    subst hold
    cases heq
    exact .inl ⟨rfl, rfl, rfl⟩
  next hne => exact .inr ⟨Ne.symm hne, hold.trans (congrArg some heq)⟩

theorem RoomAt.move (h : s.RoomAt i key' room) :
    ∃ room, (s.move c conn room' phase).RoomAt i key' room := by
  refine ⟨if conn.room = i then room' else room, getElem?_modify_some.2 ⟨_, h, ?_⟩⟩
  split <;> rfl

structure Moves (c : Nat) (conn : AudioConnection) (room room' : Room) (phase : Phase) : Prop where
  others : ∀ id, id ≠ .other c → room'.has id = room.has id
  waits : phase.waits = true → conn.phase.waits = true
  present : phase = .inRoom → room'.has (.other c) = true
  enters : room'.has (.other c) = true → room.has (.other c) = true ∨
    conn.phase.waits = true ∧ room.ended = false
  ends : phase = .left true → room.ended = false ∧ room'.ended = true
  keeps : room.ended = true → conn.phase ≠ .left true → room'.ended = true

/-- No connection can come into the room any more: none waits for it, or it has ended and nobody is
to take that back. -/
def Shut (s : Pod) (i : Nat) (room : Room) : Prop :=
  (∀ c conn, s.ConnAt c conn → conn.room = i → conn.phase.waits = false) ∨
    room.ended = true ∧ ∀ c conn, s.ConnAt c conn → conn.room = i → conn.phase ≠ .left true

/-- Connections know their rooms, a room is ended by one of them, and a room that the manager does
not have is empty for good. -/
structure Fine (s : Pod) : Prop where
  managed : ∀ key i, s.manager.rooms.lookup key = some i → ∃ room, s.RoomAt i key room
  held : ∀ c conn, s.ConnAt c conn → ∃ room, s.RoomAt conn.room conn.key room
  present : ∀ c conn key room, s.ConnAt c conn → conn.phase = .inRoom →
    s.RoomAt conn.room key room → room.has (.other c) = true
  ending : ∀ c conn key room, s.ConnAt c conn → conn.phase = .left true →
    s.RoomAt conn.room key room → room.ended = true
  once : ∀ c c' conn conn', s.ConnAt c conn → s.ConnAt c' conn' →
    conn.phase = .left true → conn'.phase = .left true → conn.room = conn'.room → c = c'
  orphan : ∀ i key room, s.RoomAt i key room → s.manager.rooms.lookup key ≠ some i →
    (∀ id, room.has id = false) ∧ s.Shut i room

theorem Fine.ended_before (h : s.Fine) (hconn : s.ConnAt c conn) (hroom : s.RoomAt conn.room key room)
    (hother : s.ConnAt c' conn') (hne : c ≠ c') (hleft : conn'.phase = .left true)
    (hsame : conn'.room = conn.room) : room.ended = true ∧ conn.phase ≠ .left true := by
  refine ⟨h.ending c' conn' key room hother hleft (hsame ▸ hroom), fun hphase => ?_⟩
  exact hne (h.once c c' conn conn' hconn hother hphase hleft hsame.symm)

theorem Shut.move (hshut : s.Shut conn.room room) (hempty : ∀ id, room.has id = false)
    (hconn : s.ConnAt c conn) (hmoves : Moves c conn room room' phase) :
    (∀ id, room'.has id = false) ∧ (s.move c conn room' phase).Shut conn.room room' := by
  have hstill : conn.phase.waits = false ∨ room.ended = true → ∀ id, room'.has id = false := by
    intro hcannot id
    by_cases hid : id = .other c
    · subst hid
      refine Bool.eq_false_iff.2 fun hhas => ?_
      obtain hwas | ⟨hwaits, hended⟩ := hmoves.enters hhas
      · rw [hempty] at hwas
        cases hwas
      · simp [hwaits, hended] at hcannot
    · rw [hmoves.others id hid]
      exact hempty id
  obtain hnone | ⟨hended, hnone⟩ := hshut
  · refine ⟨hstill (.inl (hnone c conn hconn rfl)), .inl fun c' conn' hconn' hsame => ?_⟩
    obtain ⟨old, hold, -, hroom', ⟨rfl, rfl, hphase⟩ | ⟨-, hphase⟩⟩ := connAt_move hconn hconn'
    · refine Bool.eq_false_iff.2 fun hwaits => ?_
      have hwas := hmoves.waits (hphase ▸ hwaits)
      rw [hnone c old hold rfl] at hwas
      cases hwas
    · rw [hphase]
      exact hnone c' old hold (hroom' ▸ hsame)
  · refine ⟨hstill (.inr hended), .inr ⟨hmoves.keeps hended (hnone c conn hconn rfl), ?_⟩⟩
    intro c' conn' hconn' hsame
    obtain ⟨old, hold, -, hroom', ⟨rfl, rfl, hphase⟩ | ⟨-, hphase⟩⟩ := connAt_move hconn hconn'
    · intro hleft
      have hrunning := (hmoves.ends (hphase ▸ hleft)).1
      rw [hended] at hrunning
      cases hrunning
    · rw [hphase]
      exact hnone c' old hold (hroom' ▸ hsame)

theorem Shut.of_phases {s' : Pod} (hshut : s.Shut i room)
    (hphases : ∀ c' conn', s'.ConnAt c' conn' → conn'.room = i →
      ∃ old, s.ConnAt c' old ∧ old.room = i ∧ conn'.phase = old.phase) : s'.Shut i room := by
  refine hshut.imp (fun hnone c' conn' hconn' hsame => ?_)
    fun ⟨hended, hnone⟩ => ⟨hended, fun c' conn' hconn' hsame => ?_⟩
  · obtain ⟨old, hold, hroom, hphase⟩ := hphases c' conn' hconn' hsame
    rw [hphase]
    exact hnone c' old hold hroom
  · obtain ⟨old, hold, hroom, hphase⟩ := hphases c' conn' hconn' hsame
    rw [hphase]
    exact hnone c' old hold hroom

theorem Fine.move (h : s.Fine) (hconn : s.ConnAt c conn) (hroom : s.RoomAt conn.room key room)
    (hmoves : Moves c conn room room' phase) : (s.move c conn room' phase).Fine := by
  refine ⟨?_, ?_, ?_, ?_, ?_, ?_⟩
  · intro key' i hlookup
    obtain ⟨old, hold⟩ := h.managed key' i hlookup
    exact hold.move
  · intro c' conn' hconn'
    obtain ⟨old, hold, hkey, hsame, -⟩ := connAt_move hconn hconn'
    obtain ⟨held, hheld⟩ := h.held c' old hold
    rw [hkey, hsame]
    exact hheld.move
  · intro c' conn' key' room'' hconn' hphase hi
    obtain ⟨old, hold, -, hsame, ⟨rfl, rfl, hnew⟩ | ⟨hne, hnew⟩⟩ := connAt_move hconn hconn'
    · obtain ⟨-, -, rfl⟩ | ⟨hother, -⟩ := roomAt_move hroom hi
      · exact hmoves.present (hnew ▸ hphase)
      · exact absurd hsame hother
    · obtain ⟨hat, -, rfl⟩ | ⟨-, hi⟩ := roomAt_move hroom hi
      · rw [hmoves.others _ fun heq => hne (PeerId.other.inj heq).symm]
        exact h.present c' old key room hold (hnew ▸ hphase) (hsame ▸ hat ▸ hroom)
      · exact h.present c' old key' room'' hold (hnew ▸ hphase) (hsame ▸ hi)
  · intro c' conn' key' room'' hconn' hphase hi
    obtain ⟨old, hold, -, hsame, ⟨rfl, rfl, hnew⟩ | ⟨hne, hnew⟩⟩ := connAt_move hconn hconn'
    · obtain ⟨-, -, rfl⟩ | ⟨hother, -⟩ := roomAt_move hroom hi
      · exact (hmoves.ends (hnew ▸ hphase)).2
      · exact absurd hsame hother
    · obtain ⟨hat, -, rfl⟩ | ⟨-, hi⟩ := roomAt_move hroom hi
      · obtain ⟨hwas, hkeeps⟩ := h.ended_before hconn hroom hold hne (hnew ▸ hphase) (hsame ▸ hat)
        exact hmoves.keeps hwas hkeeps
      · exact h.ending c' old key' room'' hold (hnew ▸ hphase) (hsame ▸ hi)
  · intro c₁ c₂ conn₁ conn₂ hconn₁ hconn₂ hphase₁ hphase₂ hsame
    obtain ⟨old₁, hold₁, -, hroom₁, hmove₁⟩ := connAt_move hconn hconn₁
    obtain ⟨old₂, hold₂, -, hroom₂, hmove₂⟩ := connAt_move hconn hconn₂
    have hrooms : old₁.room = old₂.room := hroom₁ ▸ hroom₂ ▸ hsame
    obtain ⟨rfl, rfl, hnew₁⟩ | ⟨hne₁, hnew₁⟩ := hmove₁ <;> obtain ⟨rfl, rfl, hnew₂⟩ | ⟨hne₂, hnew₂⟩ := hmove₂
    · rfl
    · have hwas := (h.ended_before hconn hroom hold₂ hne₂ (hnew₂ ▸ hphase₂) hrooms.symm).1
      rw [(hmoves.ends (hnew₁ ▸ hphase₁)).1] at hwas
      cases hwas
    · have hwas := (h.ended_before hconn hroom hold₁ hne₁ (hnew₁ ▸ hphase₁) hrooms).1
      rw [(hmoves.ends (hnew₂ ▸ hphase₂)).1] at hwas
      cases hwas
    · exact h.once c₁ c₂ old₁ old₂ hold₁ hold₂ (hnew₁ ▸ hphase₁) (hnew₂ ▸ hphase₂) hrooms
  · intro i key' room'' hi hlookup
    obtain ⟨rfl, rfl, rfl⟩ | ⟨hother, hi⟩ := roomAt_move hroom hi
    · obtain ⟨hempty, hshut⟩ := h.orphan conn.room key' room hroom hlookup
      exact hshut.move hempty hconn hmoves
    · obtain ⟨hempty, hshut⟩ := h.orphan i key' room'' hi hlookup
      refine ⟨hempty, hshut.of_phases fun c' conn' hconn' hsame => ?_⟩
      obtain ⟨old, hold, -, hroom', ⟨-, rfl, -⟩ | ⟨-, hphase⟩⟩ := connAt_move hconn hconn'
      · exact absurd (hsame.symm.trans hroom') hother
      · exact ⟨old, hold, hroom' ▸ hsame, hphase⟩

theorem move_same (hroom : s.RoomAt conn.room key room) : s.move c conn room phase = s.goto c phase := by
  have hsame : s.manager.set conn.room room = s.manager := by
    rw [AudioRoomManager.set]
    congr 1
    refine List.ext_getElem? fun i => ?_
    rw [List.getElem?_modify]
    by_cases hi : conn.room = i
    · subst hi
      rw [hroom]
      simp
    · simp [hi]
  rw [move, hsame]

theorem Fine.goto (h : s.Fine) (hconn : s.ConnAt c conn) (hwaits : phase.waits = true → conn.phase.waits = true)
    (hphase : phase ≠ .inRoom ∧ phase ≠ .left true) : (s.goto c phase).Fine := by
  obtain ⟨room, hroom⟩ := h.held c conn hconn
  rw [← move_same hroom]
  refine h.move hconn hroom ⟨fun _ _ => rfl, hwaits, ?_, .inl, ?_, fun hended _ => hended⟩
  · intro hin
    exact absurd hin hphase.1
  · intro hleft
    exact absurd hleft hphase.2

theorem Fine.admitPeer {peerIndex : Option Nat} (h : s.Fine) (hconn : s.ConnAt c conn)
    (hroom : s.RoomAt conn.room key room) (hwaits : conn.phase.waits = true) :
    (s.admitPeer c conn room peerIndex).Fine := by
  have hadmitted : ∀ {room' peer},
      room.Admitted (.other c) conn.pubkey conn.requestedVersion room' peer →
      (s.move c conn room' .inRoom).Fine := by
    intro room' peer hadmitted
    refine h.move hconn hroom ⟨fun id hid => ?_, ?_, fun _ => ?_, fun _ => ?_, ?_, ?_⟩
    · rw [hadmitted.has_iff, decide_eq_false hid, Bool.false_or]
    · intro hin
      cases hin
    · rw [hadmitted.has_iff, decide_eq_true rfl, Bool.true_or]
    · exact .inr ⟨hwaits, hadmitted.running⟩
    · intro hin
      cases hin
    · intro hended
      rw [hadmitted.running] at hended
      cases hended
  have hrefused : (s.goto c .returned).Fine := by
    refine h.goto hconn (fun hin => ?_) ⟨?_, ?_⟩ <;> simp [Phase.waits] at *
  unfold Pod.admitPeer
  cases peerIndex with
  | none =>
    cases hadd : room.addPeer (.other c) conn.pubkey conn.requestedVersion with
    | error e => simpa only [hadd] using hrefused
    | ok added => simpa only [hadd] using hadmitted (Room.admitted_addPeer hadd)
  | some index =>
    cases hadd : room.addPeerAtIndex (.other c) conn.pubkey conn.requestedVersion index with
    | error e => simpa only [hadd] using hrefused
    | ok added => simpa only [hadd] using hadmitted (Room.admitted_addPeerAtIndex hadd)

theorem Fine.removePeer (h : s.Fine) (hconn : s.ConnAt c conn) (hroom : s.RoomAt conn.room key room) :
    (s.removePeer c conn room).Fine := by
  have hremoved : ∀ {room' ends}, (∀ id, room'.has id = (!decide (id = .other c) && room.has id)) →
      room'.ended = (room.ended || ends) → (ends = true → room.ended = false) →
      (s.move c conn room' (.left ends)).Fine := by
    intro room' ends hhas hended hends
    refine h.move hconn hroom ⟨fun id hid => ?_, ?_, ?_, fun hin => ?_, fun hleft => ?_, fun hwas _ => ?_⟩
    · rw [hhas, decide_eq_false hid, Bool.not_false, Bool.true_and]
    · intro hwaits
      cases hwaits
    · intro hin
      cases hin
    · rw [hhas, decide_eq_true rfl] at hin
      cases hin
    · cases hleft
      exact ⟨hends rfl, by rw [hended, Bool.or_true]⟩
    · rw [hended, hwas, Bool.true_or]
  have hnobody : (s.goto c (.left false)).Fine := by
    refine h.goto hconn (fun hin => ?_) ⟨?_, ?_⟩ <;> simp [Phase.waits] at *
  unfold Pod.removePeer
  cases conn.remote with
  | true =>
    cases hremove : room.removePeer (.other c) with
    | none => simpa only [if_true, hremove, Option.map_none] using hnobody
    | some room' =>
      have hfine : (s.move c conn room' (.left false)).Fine := by
        refine hremoved (fun id => Room.has_removePeer hremove) ?_ (fun hends => by cases hends)
        rw [Room.ended_removePeer hremove, Bool.or_false]
      simpa only [if_true, hremove, Option.map_some] using hfine
  | false =>
    cases hremove : room.removePeerAndCheckEnded (.other c) with
    | none => simpa only [Bool.false_eq_true, if_false, hremove] using hnobody
    | some removed =>
      obtain ⟨room', ends⟩ := removed
      have hfine : (s.move c conn room' (.left ends)).Fine := by
        obtain ⟨removed, -, heq, hends⟩ := Room.removePeerAndCheckEnded_eq hremove
        refine hremoved (fun id => Room.has_removePeerAndCheckEnded hremove) ?_ hends
        rw [heq]
      simpa only [Bool.false_eq_true, if_false, hremove] using hfine

theorem Fine.clearEnded (h : s.Fine) (hconn : s.ConnAt c conn) (hroom : s.RoomAt conn.room key room)
    (hphase : conn.phase = .left true) : (s.move c conn { room with ended := false } .returned).Fine := by
  refine h.move hconn hroom ⟨fun _ _ => rfl, ?_, ?_, .inl, ?_, fun _ hother => absurd hphase hother⟩ <;>
    simp [Phase.waits]

theorem Fine.cleanUp (h : s.Fine)
    (hshut : ∀ i room, s.manager.rooms.lookup key = some i → s.RoomAt i key room → room.isEmpty = true →
      s.Shut i room) :
    ({ s with manager := s.manager.cleanupIfEmpty key } : Pod).Fine := by
  unfold AudioRoomManager.cleanupIfEmpty
  split
  next hempty =>
    refine ⟨fun key' i hlookup => ?_, h.held, h.present, h.ending, h.once, fun i key' room hi hlookup => ?_⟩
    · rw [Dict.lookup_erase_if] at hlookup
      split at hlookup
      · cases hlookup
      · exact h.managed key' i hlookup
    · by_cases hwas : s.manager.rooms.lookup key' = some i
      · rw [Dict.lookup_erase_if] at hlookup
        have hkey : key' = key := by
          by_contra hne
          rw [if_neg hne] at hlookup
          exact hlookup hwas
        subst hkey
        rw [hwas, Option.bind_some, show s.manager.made[i]? = some (key', room) from hi] at hempty
        exact ⟨Room.isEmpty_iff.1 hempty, hshut i room hwas hi hempty⟩
      · exact h.orphan i key' room hi hwas
  next => exact h

theorem getOrCreate_lookup : (s.manager.getOrCreate key).1.rooms.lookup key =
    some (s.manager.getOrCreate key).2 := by
  unfold AudioRoomManager.getOrCreate
  split
  next i hlookup => exact hlookup
  next => exact AList.lookup_insert _

theorem Fine.getOrCreate (h : s.Fine) : ({ s with manager := (s.manager.getOrCreate key).1 } : Pod).Fine := by
  unfold AudioRoomManager.getOrCreate
  split
  next => exact h
  next hnone =>
    -- A room of before is where it was, and the new one is where none was.
    have hold : ∀ {i key' room}, s.RoomAt i key' room →
        (s.manager.made ++ [(key, Room.new)])[i]? = some (key', room) := by
      intro i key' room hi
      rw [List.getElem?_append_left (List.getElem?_eq_some_iff.1 hi).1]
      exact hi
    have hnew : ∀ {i key' room}, (s.manager.made ++ [(key, Room.new)])[i]? = some (key', room) →
        s.RoomAt i key' room ∨ i = s.manager.made.length ∧ key' = key ∧ room = Room.new := by
      intro i key' room hi
      obtain hlt | hge := Nat.lt_or_ge i s.manager.made.length
      · rw [List.getElem?_append_left hlt] at hi
        exact .inl hi
      · rw [List.getElem?_append_right hge, List.getElem?_singleton] at hi
        split at hi
        next hzero =>
          cases hi
          exact .inr ⟨by omega, rfl, rfl⟩
        next => cases hi
    have hconn : ∀ {c conn key' room}, s.ConnAt c conn →
        (s.manager.made ++ [(key, Room.new)])[conn.room]? = some (key', room) →
        s.RoomAt conn.room key' room := by
      intro c conn key' room hconn hi
      obtain ⟨held, hheld⟩ := h.held c conn hconn
      have hsame := (hold hheld).symm.trans hi
      cases hsame
      exact hheld
    refine ⟨fun key' i hlookup => ?_, fun c conn hc => ?_, ?_, ?_, h.once, fun i key' room hi hlookup => ?_⟩
    · rw [Dict.lookup_insert_if] at hlookup
      split at hlookup
      next heq =>
        cases hlookup
        subst heq
        exact ⟨Room.new, List.getElem?_concat_length⟩
      next =>
        obtain ⟨room, hroom⟩ := h.managed key' i hlookup
        exact ⟨room, hold hroom⟩
    · obtain ⟨room, hroom⟩ := h.held c conn hc
      exact ⟨room, hold hroom⟩
    · intro c conn key' room hc hphase hi
      exact h.present c conn key' room hc hphase (hconn hc hi)
    · intro c conn key' room hc hphase hi
      exact h.ending c conn key' room hc hphase (hconn hc hi)
    · rw [Dict.lookup_insert_if] at hlookup
      obtain hi | ⟨rfl, rfl, rfl⟩ := hnew hi
      · refine h.orphan i key' room hi fun hwas => ?_
        rw [if_neg] at hlookup
        · exact hlookup hwas
        · rintro rfl
          rw [hnone] at hwas
          cases hwas
      · rw [if_pos rfl] at hlookup
        exact absurd rfl hlookup

theorem Fine.attach (h : s.Fine) (hlookup : s.manager.rooms.lookup conn.key = some conn.room)
    (hphase : conn.phase = .obtained) : ({ s with connections := s.connections ++ [conn] } : Pod).Fine := by
  have hnew : ∀ {c conn'}, ({ s with connections := s.connections ++ [conn] } : Pod).ConnAt c conn' →
      s.ConnAt c conn' ∨ conn' = conn := by
    intro c conn' hc
    obtain hlt | hge := Nat.lt_or_ge c s.connections.length
    · rw [ConnAt, List.getElem?_append_left hlt] at hc
      exact .inl hc
    · rw [ConnAt, List.getElem?_append_right hge, List.getElem?_singleton] at hc
      split at hc
      next =>
        cases hc
        exact .inr rfl
      next => cases hc
  refine ⟨h.managed, ?_, ?_, ?_, ?_, ?_⟩
  · intro c conn' hc
    obtain hc | rfl := hnew hc
    · exact h.held c conn' hc
    · exact h.managed _ _ hlookup
  · intro c conn' key room hc hin hroom
    obtain hc | rfl := hnew hc
    · exact h.present c conn' key room hc hin hroom
    · cases hphase.symm.trans hin
  · intro c conn' key room hc hleft hroom
    obtain hc | rfl := hnew hc
    · exact h.ending c conn' key room hc hleft hroom
    · cases hphase.symm.trans hleft
  · intro c c' conn₁ conn₂ hc hc' hleft hleft' hsame
    obtain hc | rfl := hnew hc
    · obtain hc' | rfl := hnew hc'
      · exact h.once c c' conn₁ conn₂ hc hc' hleft hleft' hsame
      · cases hphase.symm.trans hleft'
    · cases hphase.symm.trans hleft
  · intro i key room hi horphan
    obtain ⟨hempty, hshut⟩ := h.orphan i key room hi horphan
    have hother : conn.room ≠ i := by
      rintro rfl
      obtain ⟨managed, hmanaged⟩ := h.managed _ _ hlookup
      exact horphan ((RoomAt.unique hmanaged hi).1 ▸ hlookup)
    refine ⟨hempty, hshut.of_phases fun c conn' hc hsame => ?_⟩
    obtain hc | rfl := hnew hc
    · exact ⟨conn', hc, hsame, rfl⟩
    · exact absurd hsame hother

/-- An empty room is dropped by who ended it, or while no other connection has it and is still to be
admitted. -/
def Careful (s : Pod) : PodEvent → Prop
  | .connect .. => True
  | .wake c awaited =>
    ∀ conn ∈ s.connections[c]?, conn.next awaited = some .cleanUp →
    ∀ i ∈ s.manager.rooms.lookup conn.key, ∀ room ∈ s.room? i, room.isEmpty = true →
      conn.phase = .left true ∧ conn.room = i ∨
        ∀ other ∈ s.connections.eraseIdx c, other.room = i → other.phase.waits = false

instance (s : Pod) : (event : PodEvent) → Decidable (s.Careful event)
  | .connect .. => .isTrue trivial
  | .wake c awaited => inferInstanceAs (Decidable
    (∀ conn ∈ s.connections[c]?, conn.next awaited = some .cleanUp →
    ∀ i ∈ s.manager.rooms.lookup conn.key, ∀ room ∈ s.room? i, room.isEmpty = true →
      conn.phase = .left true ∧ conn.room = i ∨
        ∀ other ∈ s.connections.eraseIdx c, other.room = i → other.phase.waits = false))

def Comes (phase : Phase) : HandlerAction → Prop
  | .goto phase' => phase.waits = true ∧ phase' ≠ .inRoom ∧ phase' ≠ .left true
  | .admitPeer _ => phase.waits = true
  | .clearEnded => phase = .left true
  | .cleanUp | .removePeer => True

theorem comes_next {awaited : Awaited} {action : HandlerAction} (h : conn.next awaited = some action) :
    Comes conn.phase action := by
  unfold AudioConnection.next at h
  split at h
  · split at h
    next hphase =>
      split at h <;> cases h <;> simp [Comes, hphase, Phase.waits]
    next => cases h
  · split at h <;> cases h
    trivial
  next answer =>
    split at h
    next hphase =>
      cases answer with
      | some index =>
        cases h
        simp [Comes, hphase.1, Phase.waits]
      | none =>
        cases h
        trivial
    next => cases h
  · split at h
    next hphase =>
      split at h <;> cases h
      simp [Comes, hphase, Phase.waits]
    next hphase =>
      cases h
      simp [Comes, hphase, Phase.waits]
    next => cases h
  · split at h <;> cases h
    trivial
  · split at h
    next hphase =>
      split at h <;> cases h
      · trivial
      · exact hphase
    next =>
      cases h
      trivial
    next => cases h

theorem Fine.shut_of_careful {awaited : Awaited} (h : s.Fine) (hconn : s.ConnAt c conn)
    (hcareful : s.Careful (.wake c awaited)) (hnext : conn.next awaited = some .cleanUp)
    (hlookup : s.manager.rooms.lookup conn.key = some i) (hroom : s.RoomAt i key room)
    (hempty : room.isEmpty = true) : (s.goto c .returned).Shut i room := by
  obtain ⟨own, hown⟩ := h.held c conn hconn
  rw [← move_same hown]
  have hat : s.room? i = some room := by rw [room?, show s.manager.made[i]? = some (key, room) from hroom]; rfl
  obtain ⟨hleft, rfl⟩ | hnone := hcareful conn hconn hnext i hlookup room hat hempty
  · refine .inr ⟨h.ending c conn key room hconn hleft hroom, fun c' conn' hconn' hsame hleft' => ?_⟩
    obtain ⟨old, hold, -, hroom', ⟨rfl, rfl, hphase⟩ | ⟨hne, hphase⟩⟩ := connAt_move hconn hconn'
    · cases hphase.symm.trans hleft'
    · exact hne (h.once c c' conn old hconn hold hleft (hphase ▸ hleft') (hroom' ▸ hsame.symm))
  · refine .inl fun c' conn' hconn' hsame => ?_
    obtain ⟨old, hold, -, hroom', ⟨-, -, hphase⟩ | ⟨hne, hphase⟩⟩ := connAt_move hconn hconn'
    · rw [hphase]
      rfl
    · rw [hphase]
      exact hnone old (List.mem_eraseIdx_iff_getElem?.2 ⟨c', Ne.symm hne, hold⟩) (hroom' ▸ hsame)

theorem fine_step {event : PodEvent} (h : s.Fine) (hcareful : s.Careful event) : (s.step event).Fine := by
  cases event with
  | connect key pubkey version remote =>
    have hmade : ({ s with manager := (s.manager.getOrCreate key).1 } : Pod).Fine := h.getOrCreate
    exact hmade.attach (getOrCreate_lookup (s := s)) rfl
  | wake c awaited =>
    simp only [Pod.step]
    split
    · exact h
    next conn hconn =>
      split
      next room action hat hnext =>
        obtain ⟨⟨key, room'⟩, hroom, rfl⟩ := Option.map_eq_some_iff.1 hat
        have hcomes := comes_next hnext
        cases action with
        | goto phase => exact h.goto hconn (fun _ => hcomes.1) hcomes.2
        | admitPeer index => exact h.admitPeer hconn hroom hcomes
        | removePeer => exact h.removePeer hconn hroom
        | clearEnded => exact h.clearEnded hconn hroom hcomes
        | cleanUp =>
          have hreturned : (s.goto c .returned).Fine := by
            refine h.goto hconn (fun hin => ?_) ⟨?_, ?_⟩ <;> simp [Phase.waits] at *
          refine hreturned.cleanUp fun i room hlookup hroom hempty => ?_
          exact h.shut_of_careful hconn hcareful hnext hlookup hroom hempty
      next => exact h

theorem fine_new : ({} : Pod).Fine := by
  refine ⟨?_, ?_, ?_, ?_, ?_, ?_⟩ <;> intros <;> simp_all [ConnAt, RoomAt]

/-- In every run in which empty rooms are dropped with care, a room with a peer is the one that the
manager returns for its channel, and so all who are admitted to a channel are in one room. -/
theorem one_room_per_channel (events : List PodEvent) (h : Along Pod.step Pod.Careful {} events) :
    (∀ i key room id, (runFrom Pod.step {} events).RoomAt i key room → room.has id = true →
      (runFrom Pod.step {} events).manager.getOrCreate key = ((runFrom Pod.step {} events).manager, i)) ∧
    ∀ c c' conn conn', (runFrom Pod.step {} events).ConnAt c conn →
      (runFrom Pod.step {} events).ConnAt c' conn' → conn.phase = .inRoom → conn'.phase = .inRoom →
      conn.key = conn'.key → conn.room = conn'.room := by
  have hfine : (runFrom Pod.step {} events).Fine :=
    h.preserves (fun s event hs hcareful => fine_step hs hcareful) fine_new
  generalize runFrom Pod.step {} events = s at hfine
  have hmanaged : ∀ {i key room id}, s.RoomAt i key room → room.has id = true →
      s.manager.rooms.lookup key = some i := by
    intro i key room id hroom hhas
    by_contra horphan
    rw [(hfine.orphan i key room hroom horphan).1 id] at hhas
    cases hhas
  refine ⟨fun i key room id hroom hhas => ?_, fun c c' conn conn' hconn hconn' hin hin' hkey => ?_⟩
  · rw [AudioRoomManager.getOrCreate, hmanaged hroom hhas]
  · obtain ⟨room, hroom⟩ := hfine.held c conn hconn
    obtain ⟨room', hroom'⟩ := hfine.held c' conn' hconn'
    have hlookup := hmanaged hroom (hfine.present c conn _ room hconn hin hroom)
    have hlookup' := hmanaged hroom' (hfine.present c' conn' _ room' hconn' hin' hroom')
    rw [← hkey, hlookup] at hlookup'
    exact Option.some.inj hlookup'

section Examples

def huddle : RoomKey := (⟨1⟩, ⟨2⟩)

def failsLate : List PodEvent :=
  [.connect huddle "a" 3 false, .connect huddle "b" 3 false, .wake 0 (.channel .live), .wake 0 .admission,
    .connect huddle "c" 3 false, .wake 2 (.channel .failed), .wake 1 (.channel .live), .wake 1 .admission]

theorem one_room_per_channel_failsLate :
    Along Pod.step Pod.Careful {} failsLate ∧
      ∀ c c' conn conn', (runFrom Pod.step {} failsLate).ConnAt c conn →
        (runFrom Pod.step {} failsLate).ConnAt c' conn' → conn.phase = .inRoom → conn'.phase = .inRoom →
        conn.key = conn'.key → conn.room = conn'.room :=
  ⟨by decide +kernel, (one_room_per_channel failsLate (by decide +kernel)).2⟩

/-- One connection fails while the other one reads the channel, and a third one comes after. -/
def failsEarly : List PodEvent :=
  [.connect huddle "a" 3 false, .connect huddle "b" 3 false, .wake 1 (.channel .failed),
    .wake 0 (.channel .live), .wake 0 .admission, .connect huddle "c" 3 false, .wake 2 (.channel .live),
    .wake 2 .admission]

theorem peers_in_two_rooms :
    (∃ room, (runFrom Pod.step {} failsEarly).RoomAt 0 huddle room ∧ room.has (.other 0) = true) ∧
      ((runFrom Pod.step {} failsEarly).manager.getOrCreate huddle).2 = 1 ∧
      ∃ room, (runFrom Pod.step {} failsEarly).RoomAt 1 huddle room ∧ room.has (.other 2) = true :=
  ⟨⟨_, rfl, by decide +kernel⟩, by decide +kernel, ⟨_, rfl, by decide +kernel⟩⟩

end Examples

end Pod

end Colony.Audio
