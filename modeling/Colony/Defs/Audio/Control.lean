import Colony.Defs.Audio.Room

namespace Colony.Audio

open Colony.Core Colony.Data

/-- The rooms that were made for a session, and which of them the manager has for it. -/
structure Rooms where
  made : List Room
  current : Option Nat

namespace Rooms

variable (r : Rooms)

def getOrCreate : Rooms × Nat :=
  match r.current with
  | some i => (r, i)
  | none => (⟨r.made ++ [Room.new], some r.made.length⟩, r.made.length)

def room : Option Room := r.current.bind fun i => r.made[i]?

def cleanupIfEmpty : Rooms := if r.room.any Room.isEmpty then { r with current := none } else r

def modify (i : Nat) (f : Room → Room) : Rooms := { r with made := r.made.modify i f }

def holds (id : PeerId) : Bool := r.made.any fun room => room.has id

def removeRemotePeer (id : PeerId) : Rooms :=
  match r.current with
  | none => r
  | some i =>
    match (r.made[i]?).bind fun room => room.removePeerAndCheckEnded id with
    | none => r
    | some (room', shouldEnd) =>
      let r' := r.modify i fun _ => room'
      if shouldEnd then r'.cleanupIfEmpty else r'

inductive Action
  | getOrCreate
  | addPeer (room id : Nat) (pubkey : String) (version : Nat)
  | addPeerAtIndex (room id : Nat) (pubkey : String) (version peerIndex : Nat)
  | removePeer (room id : Nat)
  | removePeerAndCheckEnded (room id : Nat)
  | setEnded (room : Nat) (ended : Bool)
  | cleanupIfEmpty

def act : Action → Rooms
  | .getOrCreate => r.getOrCreate.1
  | .addPeer i id pubkey version => r.modify i fun room =>
      match room.addPeer (.other id) pubkey version with
      | .ok (room', _) => room'
      | .error _ => room
  | .addPeerAtIndex i id pubkey version peerIndex => r.modify i fun room =>
      match room.addPeerAtIndex (.other id) pubkey version peerIndex with
      | .ok (room', _) => room'
      | .error _ => room
  | .removePeer i id => r.modify i fun room => (room.removePeer (.other id)).getD room
  | .removePeerAndCheckEnded i id => r.modify i fun room =>
      ((room.removePeerAndCheckEnded (.other id)).map Prod.fst).getD room
  | .setEnded i ended => r.modify i fun room => { room with ended }
  | .cleanupIfEmpty => r.cleanupIfEmpty

end Rooms

inductive Validation
  | valid
  | fenced
  | failed

structure Reply where
  encoded : Bool
  sent : Bool

inductive HuddleControlMsg
  | registerPeer (community : Uuid) (pubkey : String) (protocolVersion : Nat)
  | unregisterPeer (pubkey : String)
  | rosterResync
  | ownerReply

inductive Received
  | data (sameHeader : Bool) (msg : Option HuddleControlMsg)
  | goodbye
  | closed
  | unexpected
  | failed

inductive RosterEvent
  | delta
  | lagged
  | closed

/-- What the loop is woken by, with what came of the awaits in its handling: the state of the owner
and the validation of a registration, what others did meanwhile, and the reply. -/
inductive Wake
  | draining
  | lost
  | roster (event : RosterEvent) (reply : Reply)
  | frame (frame : Received) (isDraining : Bool) (validation : Validation)
      (meanwhile : List Rooms.Action) (reply : Reply)
  | others (action : Rooms.Action)

structure Control where
  rooms : Rooms
  registered : Dict String PeerId := ∅
  streamCommunity : Option Uuid := none
  subscribed : Bool := false
  admitted : Nat := 0
  returned : Bool := false

namespace Control

variable (order : IterOrder (Σ _ : String, PeerId)) (s : Control)

def breakLoop : Control :=
  { s with
    rooms := if s.streamCommunity.isSome then
        (order.order s.registered.entries).foldl (fun r e => r.removeRemotePeer e.2) s.rooms
      else s.rooms
    returned := true }

def returnEarly : Control := { s with returned := true }

def sendOrReturn (reply : Reply) : Control := if reply.encoded && reply.sent then s else s.returnEarly

def registerRemotePeer (room : Nat) (pubkey : String) (protocolVersion : Nat) : Control × Bool :=
  match (s.rooms.made[room]?).bind fun x =>
      (x.addPeer (.mine s.admitted) pubkey protocolVersion).toOption with
  | some (room', _) =>
    ({ s with
      rooms := s.rooms.modify room fun _ => room'
      registered := s.registered.insert pubkey (.mine s.admitted)
      admitted := s.admitted + 1 }, true)
  | none => (s, false)

/-- A registration from the validation on, in the room that was looked up before it. -/
def registerValidated (room : Nat) (pubkey : String) (protocolVersion : Nat) (validation : Validation)
    (reply : Reply) : Control :=
  match validation with
  | .failed => s.breakLoop order
  | .fenced =>
    if !reply.encoded then s.returnEarly else if !reply.sent then s.breakLoop order else s
  | .valid =>
    let (s', registered) := s.registerRemotePeer room pubkey protocolVersion
    if !reply.encoded then s'.returnEarly
    else if !reply.sent then s'.breakLoop order
    else { s' with subscribed := s'.subscribed || registered }

def handle (isDraining : Bool) (validation : Validation) (meanwhile : List Rooms.Action)
    (reply : Reply) : HuddleControlMsg → Control
  | .registerPeer community pubkey protocolVersion =>
    if s.streamCommunity.any (· ≠ community) then s.breakLoop order
    else
      let s := { s with streamCommunity := some community }
      if isDraining then s.breakLoop order
      else
        let (rooms, room) := s.rooms.getOrCreate
        ({ s with rooms := meanwhile.foldl Rooms.act rooms } : Control).registerValidated order room
          pubkey protocolVersion validation reply
  | .unregisterPeer pubkey =>
    match s.registered.lookup pubkey with
    | none => s
    | some id =>
      let s := { s with registered := s.registered.erase pubkey }
      if s.streamCommunity.isSome then { s with rooms := s.rooms.removeRemotePeer id } else s
  | .rosterResync =>
    if s.streamCommunity.isSome && s.rooms.current.isSome then s.sendOrReturn reply
    else s.breakLoop order
  | .ownerReply => s.breakLoop order

def step (s : Control) (wake : Wake) : Control :=
  if s.returned then s
  else match wake with
    | .draining | .lost => s.breakLoop order
    | .roster event reply =>
      if !s.subscribed then s
      else match event with
        | .delta => s.sendOrReturn reply
        | .lagged =>
          if s.streamCommunity.isSome && s.rooms.current.isSome then s.sendOrReturn reply
          else s.breakLoop order
        | .closed => s.breakLoop order
    | .frame (.data sameHeader msg) isDraining validation meanwhile reply =>
      if !sameHeader then s.breakLoop order
      else match msg with
        | none => s.breakLoop order
        | some msg => s.handle order isDraining validation meanwhile reply msg
    | .frame _ _ _ _ _ => s.breakLoop order
    | .others action => { s with rooms := s.rooms.act action }

end Control

namespace Rooms

variable {r r' r'' : Rooms} {id id' : PeerId} {i n : Nat}

def At (r : Rooms) (i : Nat) (id : PeerId) : Prop :=
  ∃ room, r.made[i]? = some room ∧ room.has id = true

theorem holds_iff : r.holds id = true ↔ ∃ i, r.At i id := by
  simp only [holds, List.any_eq_true, At]
  constructor
  · rintro ⟨room, hmem, hhas⟩
    obtain ⟨i, hi⟩ := List.mem_iff_getElem?.1 hmem
    exact ⟨i, room, hi, hhas⟩
  · rintro ⟨i, room, hi, hhas⟩
    exact ⟨room, List.mem_of_getElem? hi, hhas⟩

theorem at_modify {f : Room → Room} {j : Nat}
    (h : (r.modify j f).At i id) (hf : ∀ room, (f room).has id = true → room.has id = true) :
    r.At i id := by
  obtain ⟨room, hroom, hhas⟩ := h
  simp only [modify, List.getElem?_modify] at hroom
  obtain ⟨old, hold, rfl⟩ := Option.map_eq_some_iff.1 hroom
  refine ⟨old, hold, ?_⟩
  split at hhas
  · exact hf old hhas
  · exact hhas

/-- Of the stream's own peers no new one is there, and the room of each is the manager's if it was
before. -/
def Keeps (r r' : Rooms) : Prop :=
  ∀ i n, r'.At i (.mine n) → r.At i (.mine n) ∧ (r.current = some i → r'.current = some i)

theorem Keeps.trans (h : r.Keeps r') (h' : r'.Keeps r'') : r.Keeps r'' := by
  intro i n hat
  obtain ⟨hat', hcurrent'⟩ := h' i n hat
  obtain ⟨hat, hcurrent⟩ := h i n hat'
  exact ⟨hat, fun h => hcurrent' (hcurrent h)⟩

theorem keeps_getOrCreate : r.Keeps r.getOrCreate.1 := by
  intro i n h
  unfold getOrCreate at h ⊢
  split at h
  · exact ⟨h, fun hcurrent => hcurrent⟩
  next hnone =>
    refine ⟨?_, fun hcurrent => by rw [hnone] at hcurrent; cases hcurrent⟩
    obtain ⟨room, hroom, hhas⟩ := h
    rw [List.getElem?_append] at hroom
    split at hroom
    · exact ⟨room, hroom, hhas⟩
    · obtain rfl := List.mem_singleton.1 (List.mem_of_getElem? hroom)
      cases hhas

theorem at_cleanupIfEmpty (h : r.cleanupIfEmpty.At i id) :
    r.At i id ∧ (r.current = some i → r.cleanupIfEmpty.current = some i) := by
  unfold cleanupIfEmpty at h ⊢
  split at h
  next hempty =>
    refine ⟨h, fun hcurrent => ?_⟩
    obtain ⟨room, hroom, hhas⟩ := h
    rw [Rooms.room, hcurrent, Option.bind_some, hroom, Option.any_some, Room.isEmpty_iff] at hempty
    rw [hempty] at hhas
    cases hhas
  next hempty =>
    rw [if_neg hempty]
    exact ⟨h, fun hcurrent => hcurrent⟩

theorem keeps_modify {j : Nat} {f : Room → Room}
    (hf : ∀ room n, (f room).has (.mine n) = true → room.has (.mine n) = true) :
    r.Keeps (r.modify j f) :=
  fun _ n h => ⟨at_modify h fun room => hf room n, fun hcurrent => hcurrent⟩

theorem keeps_act (action : Action) : r.Keeps (r.act action) := by
  cases action with
  | getOrCreate => exact keeps_getOrCreate
  | cleanupIfEmpty => exact fun _ _ => at_cleanupIfEmpty
  | setEnded i ended => exact keeps_modify fun room n hhas => hhas
  | addPeer i id pubkey version =>
    refine keeps_modify fun room n hhas => ?_
    cases hadd : room.addPeer (.other id) pubkey version with
    | error e => simpa [hadd] using hhas
    | ok added =>
      rw [hadd] at hhas
      simpa [Room.has_addPeer hadd] using hhas
  | addPeerAtIndex i id pubkey version index =>
    refine keeps_modify fun room n hhas => ?_
    cases hadd : room.addPeerAtIndex (.other id) pubkey version index with
    | error e => simpa [hadd] using hhas
    | ok added =>
      rw [hadd] at hhas
      simpa [(Room.admitted_addPeerAtIndex hadd).has_iff] using hhas
  | removePeer i id =>
    refine keeps_modify fun room n hhas => ?_
    cases hremove : room.removePeer (.other id) with
    | none => simpa [hremove] using hhas
    | some room' =>
      rw [hremove] at hhas
      simpa [Room.has_removePeer hremove] using hhas
  | removePeerAndCheckEnded i id =>
    refine keeps_modify fun room n hhas => ?_
    cases hremove : room.removePeerAndCheckEnded (.other id) with
    | none => simpa [hremove] using hhas
    | some removed =>
      rw [hremove] at hhas
      simpa [Room.has_removePeerAndCheckEnded hremove] using hhas

theorem keeps_foldl_act (actions : List Action) : r.Keeps (actions.foldl act r) := by
  induction actions generalizing r with
  | nil => exact fun _ _ h => ⟨h, fun hcurrent => hcurrent⟩
  | cons action actions ih => exact (keeps_act action).trans ih

theorem at_removeRemotePeer (h : (r.removeRemotePeer id).At i id') :
    r.At i id' ∧ (r.current = some i → (r.removeRemotePeer id).current = some i ∧ id' ≠ id) := by
  unfold removeRemotePeer at h ⊢
  split at h
  next hnone => exact ⟨h, fun hcurrent => by rw [hnone] at hcurrent; cases hcurrent⟩
  next j hj =>
  split at h
  next hremove =>
    refine ⟨h, fun hcurrent => ⟨hcurrent, ?_⟩⟩
    rintro rfl
    obtain ⟨room, hroom, hhas⟩ := h
    obtain rfl : j = i := Option.some.inj (hj.symm.trans hcurrent)
    simp only [hroom, Option.bind_some, Room.removePeerAndCheckEnded, Room.removePeer,
      Option.map_eq_none_iff] at hremove
    rw [Room.has, hremove] at hhas
    cases hhas
  next room' shouldEnd hremove =>
    obtain ⟨room, hroom, hremove⟩ := Option.bind_eq_some_iff.1 hremove
    have hmodified : (r.modify j fun _ => room').At i id' ∧ (r.current = some i →
        (if shouldEnd then (r.modify j fun _ => room').cleanupIfEmpty
          else r.modify j fun _ => room').current = some i) := by
      cases shouldEnd with
      | true => exact at_cleanupIfEmpty h
      | false => exact ⟨h, fun hcurrent => hcurrent⟩
    obtain ⟨⟨now, hnow, hhas⟩, hcurrent⟩ := hmodified
    simp only [modify, List.getElem?_modify] at hnow
    obtain ⟨old, hold, rfl⟩ := Option.map_eq_some_iff.1 hnow
    split at hhas
    next hji =>
      subst hji
      cases hroom.symm.trans hold
      rw [Room.has_removePeerAndCheckEnded hremove] at hhas
      simp only [Bool.and_eq_true, Bool.not_eq_true', decide_eq_false_iff_not] at hhas
      exact ⟨⟨room, hroom, hhas.2⟩, fun h => ⟨hcurrent h, hhas.1⟩⟩
    next hji =>
      exact ⟨⟨old, hold, hhas⟩, fun h => absurd (Option.some.inj (hj.symm.trans h)) hji⟩

theorem at_foldl_remove {entries : List (Σ _ : String, PeerId)}
    (h : (entries.foldl (fun r e => r.removeRemotePeer e.2) r).At i id) :
    r.At i id ∧ (r.current = some i → ∀ e ∈ entries, id ≠ e.2) := by
  induction entries generalizing r with
  | nil => exact ⟨h, by simp⟩
  | cons e entries ih =>
    obtain ⟨hat, hrest⟩ := ih h
    obtain ⟨hat, hne⟩ := at_removeRemotePeer hat
    exact ⟨hat, fun hcurrent =>
      List.forall_mem_cons.2 ⟨(hne hcurrent).2, hrest (hne hcurrent).1⟩⟩

end Rooms

namespace Control

variable {order : IterOrder (Σ _ : String, PeerId)} {s : Control}

structure Tracks (s : Control) : Prop where
  managed : ∀ i n, s.rooms.At i (.mine n) → s.rooms.current = some i
  registered : ∀ i n, s.rooms.At i (.mine n) →
    ∃ pubkey, s.registered.lookup pubkey = some (.mine n)
  community : s.streamCommunity = none → ∀ pubkey, s.registered.lookup pubkey = none

def Cleared (s : Control) : Prop := ∀ i n, ¬s.rooms.At i (.mine n)

/-- What holds between two wakes: the loop goes on with all its peers tracked, or it is over and
they are gone. -/
def Fine (s : Control) : Prop := if s.returned then s.Cleared else s.Tracks

theorem Tracks.breakLoop (h : s.Tracks) : (s.breakLoop order).Fine := by
  intro i n hat
  simp only [Control.breakLoop] at hat
  split at hat
  · obtain ⟨hbefore, hremoved⟩ := Rooms.at_foldl_remove hat
    obtain ⟨pubkey, hlookup⟩ := h.registered i n hbefore
    have hmem := (Dict.mem_lookup_entries s.registered pubkey _).1 hlookup
    exact hremoved (h.managed i n hbefore) _ ((order.mem_order _ _).2 hmem) rfl
  next hcommunity =>
    obtain ⟨pubkey, hlookup⟩ := h.registered i n hat
    rw [h.community (Option.not_isSome_iff_eq_none.1 hcommunity)] at hlookup
    cases hlookup

theorem Tracks.fine (h : s.Tracks) (hreturned : s.returned = false) : s.Fine := by
  rw [Fine, hreturned]
  exact h

theorem Tracks.of_keeps {rooms : Rooms} (h : s.Tracks) (hrooms : s.rooms.Keeps rooms) :
    ({ s with rooms } : Control).Tracks :=
  ⟨fun i n hat => (hrooms i n hat).2 (h.managed i n (hrooms i n hat).1),
    fun i n hat => h.registered i n (hrooms i n hat).1, h.community⟩

theorem Tracks.registerRemotePeer {room version : Nat} {pubkey : String} (h : s.Tracks)
    (hcommunity : s.streamCommunity.isSome) (hfree : s.registered.lookup pubkey = none)
    (hcurrent : s.rooms.current = some room) :
    (s.registerRemotePeer room pubkey version).1.Tracks := by
  unfold Control.registerRemotePeer
  split
  next room' peer hadd =>
    obtain ⟨old, hold, hadded⟩ := Option.bind_eq_some_iff.1 hadd
    have hok : old.addPeer (.mine s.admitted) pubkey version = .ok (room', peer) := by
      cases hresult : old.addPeer (.mine s.admitted) pubkey version with
      | error e => simp [hresult, Except.toOption] at hadded
      | ok added => simpa [hresult, Except.toOption] using hadded
    have hbefore : ∀ i n, (s.rooms.modify room fun _ => room').At i (.mine n) →
        i = room ∧ n = s.admitted ∨ s.rooms.At i (.mine n) := by
      rintro i n ⟨now, hnow, hhas⟩
      simp only [Rooms.modify, List.getElem?_modify] at hnow
      obtain ⟨was, hwas, rfl⟩ := Option.map_eq_some_iff.1 hnow
      split at hhas
      next hroom =>
        subst hroom
        cases hold.symm.trans hwas
        rw [Room.has_addPeer hok] at hhas
        simp only [PeerId.mine.injEq, Bool.or_eq_true, decide_eq_true_eq] at hhas
        exact hhas.imp (⟨rfl, ·⟩) (⟨old, hold, ·⟩)
      next => exact .inr ⟨was, hwas, hhas⟩
    refine ⟨fun i n hat => ?_, fun i n hat => ?_, fun hnone => ?_⟩
    · rcases hbefore i n hat with ⟨rfl, -⟩ | hat
      · exact hcurrent
      · exact h.managed i n hat
    · rcases hbefore i n hat with ⟨-, rfl⟩ | hat
      · exact ⟨pubkey, by simp⟩
      · obtain ⟨key, hkey⟩ := h.registered i n hat
        refine ⟨key, ?_⟩
        rw [Dict.lookup_insert_if, if_neg]
        · exact hkey
        · rintro rfl
          rw [hfree] at hkey
          cases hkey
    · rw [hnone] at hcommunity
      cases hcommunity
  · exact h

theorem returned_registerRemotePeer {room version : Nat} {pubkey : String} :
    (s.registerRemotePeer room pubkey version).1.returned = s.returned := by
  unfold Control.registerRemotePeer
  split <;> rfl

theorem Tracks.sendOrReturn {reply : Reply} (h : s.Tracks) (hreturned : s.returned = false)
    (hreply : reply.encoded = true ∧ reply.sent = true) : (s.sendOrReturn reply).Fine := by
  rw [Control.sendOrReturn, hreply.1, hreply.2]
  exact h.fine hreturned

theorem Tracks.registerValidated {room version : Nat} {pubkey : String} {validation : Validation}
    {reply : Reply} (h : s.Tracks) (hreturned : s.returned = false)
    (hcommunity : s.streamCommunity.isSome) (hencoded : reply.encoded = true)
    (hvalid : validation = .valid →
      s.registered.lookup pubkey = none ∧ s.rooms.current = some room) :
    (s.registerValidated order room pubkey version validation reply).Fine := by
  unfold Control.registerValidated
  simp only [hencoded, Bool.not_true, Bool.false_eq_true, if_false]
  cases validation with
  | failed => exact h.breakLoop
  | fenced =>
    simp only
    split
    · exact h.breakLoop
    · exact h.fine hreturned
  | valid =>
    obtain ⟨hfree, hcurrent⟩ := hvalid rfl
    have htracks : (s.registerRemotePeer room pubkey version).1.Tracks :=
      h.registerRemotePeer hcommunity hfree hcurrent
    simp only
    split
    · exact htracks.breakLoop
    · refine Tracks.fine ⟨htracks.managed, htracks.registered, htracks.community⟩ ?_
      rw [← hreturned]
      exact returned_registerRemotePeer

/-- A reply whose failure leaves the function is encoded and sent, a key is registered once at a
time, and the room that a registration was given is still the manager's when it is admitted. -/
def Careful (s : Control) : Wake → Prop
  | .roster _ reply => reply.encoded = true ∧ reply.sent = true
  | .frame (.data _ (some (.registerPeer _ pubkey _))) _ validation meanwhile reply =>
    reply.encoded = true ∧ (validation = .valid → s.registered.lookup pubkey = none ∧
      (meanwhile.foldl Rooms.act s.rooms.getOrCreate.1).current = some s.rooms.getOrCreate.2)
  | .frame (.data _ (some .rosterResync)) _ _ _ reply => reply.encoded = true ∧ reply.sent = true
  | _ => True

theorem Tracks.unregister {pubkey : String} {id : PeerId} (h : s.Tracks)
    (hlookup : s.registered.lookup pubkey = some id) :
    ({ s with
      registered := s.registered.erase pubkey
      rooms := s.rooms.removeRemotePeer id } : Control).Tracks := by
  refine ⟨fun i n hat => ?_, fun i n hat => ?_, fun hnone key => ?_⟩
  · obtain ⟨hbefore, hcurrent⟩ := Rooms.at_removeRemotePeer hat
    exact (hcurrent (h.managed i n hbefore)).1
  · obtain ⟨hbefore, hcurrent⟩ := Rooms.at_removeRemotePeer hat
    have hne := (hcurrent (h.managed i n hbefore)).2
    obtain ⟨key, hkey⟩ := h.registered i n hbefore
    refine ⟨key, ?_⟩
    rw [Dict.lookup_erase_if, if_neg]
    · exact hkey
    · rintro rfl
      exact hne (Option.some.inj (hkey.symm.trans hlookup))
  · rw [h.community hnone] at hlookup
    cases hlookup

theorem Tracks.handle {sameHeader isDraining : Bool} {validation : Validation}
    {meanwhile : List Rooms.Action} {reply : Reply} {msg : HuddleControlMsg} (h : s.Tracks)
    (hreturned : s.returned = false)
    (hcareful : s.Careful (.frame (.data sameHeader (some msg)) isDraining validation meanwhile reply)) :
    (s.handle order isDraining validation meanwhile reply msg).Fine := by
  cases msg with
  | registerPeer community pubkey version =>
    obtain ⟨hencoded, hvalid⟩ := hcareful
    simp only [Control.handle]
    split
    · exact h.breakLoop
    have hlatched : ({ s with streamCommunity := some community } : Control).Tracks :=
      ⟨h.managed, h.registered, fun hnone => by cases hnone⟩
    split
    · exact hlatched.breakLoop
    · exact Tracks.registerValidated
        (hlatched.of_keeps (Rooms.keeps_getOrCreate.trans (Rooms.keeps_foldl_act meanwhile)))
        hreturned rfl hencoded hvalid
  | unregisterPeer pubkey =>
    simp only [Control.handle]
    split
    · exact h.fine hreturned
    next id hlookup =>
      split
      · exact (h.unregister hlookup).fine hreturned
      next hcommunity =>
        rw [h.community (Option.not_isSome_iff_eq_none.1 hcommunity)] at hlookup
        cases hlookup
  | rosterResync =>
    simp only [Control.handle]
    split
    · exact h.sendOrReturn hreturned hcareful
    · exact h.breakLoop
  | ownerReply => exact h.breakLoop

theorem fine_step {wake : Wake} (h : s.Fine) (hcareful : s.Careful wake) : (s.step order wake).Fine := by
  unfold Control.step
  split
  · exact h
  next hrunning =>
    have hreturned : s.returned = false := Bool.eq_false_iff.2 hrunning
    have htracks : s.Tracks := by simpa [Fine, hreturned] using h
    cases wake with
    | draining => exact htracks.breakLoop
    | lost => exact htracks.breakLoop
    | others action => exact (htracks.of_keeps (Rooms.keeps_act action)).fine hreturned
    | roster event reply =>
      simp only
      split
      · exact h
      cases event with
      | delta => exact htracks.sendOrReturn hreturned hcareful
      | closed => exact htracks.breakLoop
      | lagged =>
        simp only
        split
        · exact htracks.sendOrReturn hreturned hcareful
        · exact htracks.breakLoop
    | frame frame isDraining validation meanwhile reply =>
      cases frame with
      | data sameHeader msg =>
        simp only
        split
        · exact htracks.breakLoop
        cases msg with
        | none => exact htracks.breakLoop
        | some msg => exact htracks.handle hreturned hcareful
      | goodbye => exact htracks.breakLoop
      | closed => exact htracks.breakLoop
      | unexpected => exact htracks.breakLoop
      | failed => exact htracks.breakLoop

theorem fine_run {wakes : List Wake} (h : s.Fine) (hwakes : Along (step order) Careful s wakes) :
    (runFrom (step order) s wakes).Fine := by
  induction wakes generalizing s with
  | nil => exact h
  | cons wake wakes ih => exact ih (fine_step h hwakes.1) hwakes.2

end Control

/-- When the loop is over, no peer of the stream is in any room that was ever made: its replies
that were left by `?` all went out, no key was registered that was registered still, and no room was
dropped between its lookup and the admission. -/
theorem serveControlLoop_leaves_none (order : IterOrder (Σ _ : String, PeerId)) (rooms : Rooms)
    (wakes : List Wake) (hnew : ∀ n, rooms.holds (.mine n) = false)
    (hwakes : Along (Control.step order) Control.Careful { rooms } wakes)
    (hreturned : (runFrom (Control.step order) { rooms } wakes).returned = true) (n : Nat) :
    (runFrom (Control.step order) { rooms } wakes).rooms.holds (.mine n) = false := by
  have hnone : ∀ i m, ¬rooms.At i (.mine m) := fun i m hat =>
    Bool.eq_false_iff.1 (hnew m) (Rooms.holds_iff.2 ⟨i, hat⟩)
  have hstart : ({ rooms } : Control).Fine :=
    Control.Tracks.fine ⟨fun i m hat => absurd hat (hnone i m), fun i m hat => absurd hat (hnone i m),
      fun _ _ => rfl⟩ rfl
  have hend := Control.fine_run hstart hwakes
  rw [Control.Fine, hreturned] at hend
  refine Bool.eq_false_iff.2 fun hholds => ?_
  obtain ⟨i, hat⟩ := Rooms.holds_iff.1 hholds
  exact hend i n hat

/-- A client that is registered and taken off again, and one that is there at the goodbye, with
others coming into the room meanwhile. -/
def twoClients : List Wake :=
  [.frame (.data true (some (.registerPeer ⟨1⟩ "a" 1))) false .valid [.addPeer 0 7 "c" 1] ⟨true, true⟩,
    .others (.removePeer 0 7),
    .frame (.data true (some (.registerPeer ⟨1⟩ "b" 1))) false .valid [.cleanupIfEmpty] ⟨true, true⟩,
    .frame (.data true (some (.unregisterPeer "a"))) false .valid [] ⟨true, true⟩,
    .others (.addPeerAtIndex 0 8 "d" 1 5),
    .frame .goodbye false .valid [] ⟨true, true⟩]

theorem serveControlLoop_leaves_none_twoClients :
    (runFrom (Control.step IterOrder.stored) { rooms := ⟨[], none⟩ } twoClients).rooms.holds (.other 8) =
        true ∧
      (runFrom (Control.step IterOrder.stored) { rooms := ⟨[], none⟩ } twoClients).rooms.holds (.mine 1) =
        false :=
  ⟨by decide +kernel, serveControlLoop_leaves_none IterOrder.stored ⟨[], none⟩ twoClients (fun _ => rfl)
    ⟨⟨rfl, fun _ => by decide +kernel⟩, trivial, ⟨rfl, fun _ => by decide +kernel⟩, trivial, trivial,
      trivial, trivial⟩ (by decide +kernel) 1⟩

theorem peer_left_in_room :
    (∃ s, s = runFrom (Control.step IterOrder.stored) { rooms := ⟨[], none⟩ }
        [.frame (.data true (some (.registerPeer ⟨1⟩ "a" 1))) false .valid [] ⟨true, true⟩,
          .frame (.data true (some (.registerPeer ⟨1⟩ "a" 1))) false .valid [] ⟨true, true⟩,
          .frame .goodbye false .valid [] ⟨true, true⟩] ∧
      s.returned = true ∧ s.rooms.holds (.mine 0) = true) ∧
    (∃ s, s = runFrom (Control.step IterOrder.stored) { rooms := ⟨[], none⟩ }
        [.frame (.data true (some (.registerPeer ⟨1⟩ "a" 1))) false .valid [] ⟨true, true⟩,
          .frame (.data true (some .rosterResync)) false .valid [] ⟨true, false⟩] ∧
      s.returned = true ∧ s.rooms.holds (.mine 0) = true) ∧
    ∃ s, s = runFrom (Control.step IterOrder.stored) { rooms := ⟨[], none⟩ }
        [.others .getOrCreate,
          .frame (.data true (some (.registerPeer ⟨1⟩ "a" 1))) false .valid [.cleanupIfEmpty] ⟨true, true⟩,
          .others (.addPeer 0 7 "b" 1),
          .frame .goodbye false .valid [] ⟨true, true⟩] ∧
      s.returned = true ∧ s.rooms.holds (.mine 0) = true :=
  ⟨⟨_, rfl, by decide +kernel⟩, ⟨_, rfl, by decide +kernel⟩, ⟨_, rfl, by decide +kernel⟩⟩

end Colony.Audio
