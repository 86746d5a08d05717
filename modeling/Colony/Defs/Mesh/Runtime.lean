import Colony.Defs.Mesh.Membership

namespace Colony.Mesh

open Colony.Data

structure Connection where
  number : Nat
  dialedByUs : Bool
  deriving DecidableEq

def newConnectionWins (own remote : RuntimeId) (newDialedByUs : Bool) : Bool :=
  if own < remote then newDialedByUs else !newDialedByUs

/-- The peer table, with the connections whose loops were started and those whose loops were
aborted. -/
structure Connections where
  own : RuntimeId
  peers : Dict RuntimeId Connection
  started : List (RuntimeId × Connection)
  aborted : List (RuntimeId × Connection)

namespace Connections

def idle (own : RuntimeId) : Connections := ⟨own, ∅, [], []⟩

def install (s : Connections) (remote : RuntimeId) (new : Connection) : Connections :=
  { s with peers := s.peers.insert remote new, started := (remote, new) :: s.started }

def abort (s : Connections) (remote : RuntimeId) (existing : Connection) : Connections :=
  { s with aborted := (remote, existing) :: s.aborted }

def installPeer (s : Connections) (remote : RuntimeId) (new : Connection) : Connections :=
  match s.peers.lookup remote with
  | some existing =>
    if newConnectionWins s.own remote new.dialedByUs then
      (s.abort remote existing).install remote new
    else s
  | none => s.install remote new

def removePeer (s : Connections) (remote : RuntimeId) : Connections :=
  match s.peers.lookup remote with
  | some existing => { s.abort remote existing with peers := s.peers.erase remote }
  | none => s

inductive Event
  | installs (remote : RuntimeId) (new : Connection)
  -- A datagram or stream loop of the connection has seen its error.
  | loopEnds (remote : RuntimeId) (connection : Connection)

def step (s : Connections) : Event → Connections
  | .installs remote new => s.installPeer remote new
  | .loopEnds remote connection =>
    if (remote, connection) ∈ s.started then s.removePeer remote else s

def AbortHolds (s : Connections) : Event → Prop
  | .installs _ _ => True
  | .loopEnds remote connection => (remote, connection) ∉ s.aborted

instance (s : Connections) : (e : Event) → Decidable (s.AbortHolds e)
  | .installs _ _ => .isTrue trivial
  | .loopEnds remote connection => inferInstanceAs (Decidable ((remote, connection) ∉ s.aborted))

/-- What the table is for: a connection stands until its own loops end or a connection that wins
against it takes its place. -/
def serve (own remote : RuntimeId) (current : Option Connection) : Event → Option Connection
  | .installs r new =>
    if r = remote ∧ (current = none ∨ newConnectionWins own remote new.dialedByUs = true) then some new
    else current
  | .loopEnds r connection => if r = remote ∧ current = some connection then none else current

structure Tracked (own : RuntimeId) (s : Connections) : Prop where
  own : s.own = own
  started : ∀ remote c, (remote, c) ∈ s.started →
    s.peers.lookup remote = some c ∨ (remote, c) ∈ s.aborted
  entry : ∀ remote c, s.peers.lookup remote = some c → (remote, c) ∈ s.started

section Laws

variable {own remote : RuntimeId} {s : Connections} {new : Connection}

theorem Tracked.idle (own : RuntimeId) : Tracked own (idle own) :=
  ⟨rfl, fun _ _ h => absurd h List.not_mem_nil, fun _ _ h => by cases h⟩

theorem Tracked.install (h : Tracked own s)
    (hold : ∀ c, s.peers.lookup remote = some c → (remote, c) ∈ s.aborted) (new : Connection) :
    Tracked own (s.install remote new) := by
  refine ⟨h.own, fun r c hc => ?_, fun r c hc => ?_⟩
  · simp only [Connections.install, Dict.lookup_insert_if]
    rcases List.mem_cons.1 hc with heq | hc
    · cases heq
      exact .inl (if_pos rfl)
    · rcases h.started r c hc with hentry | habort
      · by_cases hr : r = remote
        · exact .inr (hr ▸ hold c (hr ▸ hentry))
        · exact .inl (by rw [if_neg hr, hentry])
      · exact .inr habort
  · simp only [Connections.install, Dict.lookup_insert_if] at hc ⊢
    split at hc
    · next hr =>
      cases hc
      exact hr ▸ List.mem_cons_self
    · exact List.mem_cons_of_mem _ (h.entry r c hc)

theorem Tracked.abort (h : Tracked own s) (remote : RuntimeId) (c : Connection) :
    Tracked own (s.abort remote c) :=
  ⟨h.own, fun r c' hc => (h.started r c' hc).imp_right (List.mem_cons_of_mem _), h.entry⟩

theorem Tracked.installPeer (h : Tracked own s) (remote : RuntimeId) (new : Connection) :
    Tracked own (s.installPeer remote new) := by
  unfold Connections.installPeer
  split
  · next existing hlookup =>
    split
    · refine (h.abort remote existing).install (fun c hc => ?_) new
      cases hlookup.symm.trans hc
      exact List.mem_cons_self
    · exact h
  · next hlookup => exact h.install (fun c hc => by rw [hlookup] at hc; cases hc) new

theorem Tracked.removePeer (h : Tracked own s) (remote : RuntimeId) :
    Tracked own (s.removePeer remote) := by
  unfold Connections.removePeer
  split
  · next existing hlookup =>
    refine ⟨h.own, fun r c hc => ?_, fun r c hc => ?_⟩
    · simp only [Dict.lookup_erase_if]
      rcases h.started r c hc with hentry | habort
      · by_cases hr : r = remote
        · subst hr
          cases hlookup.symm.trans hentry
          exact .inr List.mem_cons_self
        · exact .inl (by rw [if_neg hr, hentry])
      · exact .inr (List.mem_cons_of_mem _ habort)
    · simp only [Dict.lookup_erase_if] at hc
      split at hc
      · cases hc
      · exact h.entry r c hc
  · exact h

theorem Tracked.step (h : Tracked own s) (e : Event) : Tracked own (s.step e) := by
  cases e with
  | installs remote new => exact h.installPeer remote new
  | loopEnds remote c =>
    simp only [Connections.step]
    split
    · exact h.removePeer remote
    · exact h

theorem lookup_installPeer (r : RuntimeId) : (s.installPeer remote new).peers.lookup r =
    serve s.own r (s.peers.lookup r) (.installs remote new) := by
  simp only [installPeer, serve]
  by_cases hr : remote = r
  · subst hr
    cases hlookup : s.peers.lookup remote with
    | none => simp [install]
    | some existing =>
      by_cases hwins : newConnectionWins s.own remote new.dialedByUs = true
      · simp [hwins, install, abort]
      · simp [hwins, hlookup]
  · rw [if_neg fun h => hr h.1]
    have hne : ¬r = remote := fun h => hr h.symm
    cases s.peers.lookup remote with
    | none => simp [install, hne]
    | some existing =>
      dsimp only
      split
      · simp [install, abort, hne]
      · rfl

theorem lookup_removePeer (r : RuntimeId) : (s.removePeer remote).peers.lookup r =
    if r = remote then none else s.peers.lookup r := by
  unfold removePeer
  cases hlookup : s.peers.lookup remote with
  | none =>
    dsimp only
    split
    · next hr => rw [hr, hlookup]
    · rfl
  | some existing => exact Dict.lookup_erase_if _ _ _

theorem step_serves (h : Tracked own s) {e : Event} (he : s.AbortHolds e) (r : RuntimeId) :
    (s.step e).peers.lookup r = serve own r (s.peers.lookup r) e := by
  cases e with
  | installs remote new => rw [← h.own]; exact lookup_installPeer r
  | loopEnds remote c =>
    simp only [step, serve]
    by_cases hstarted : (remote, c) ∈ s.started
    · have hentry := (h.started remote c hstarted).resolve_right he
      rw [if_pos hstarted, lookup_removePeer]
      by_cases hr : r = remote
      · rw [if_pos hr, if_pos ⟨hr.symm, hr ▸ hentry⟩]
      · rw [if_neg hr, if_neg fun h => hr h.1.symm]
    · rw [if_neg hstarted, if_neg]
      rintro ⟨rfl, hentry⟩
      exact hstarted (h.entry _ c hentry)

theorem run_serves (own : RuntimeId) {events : List Event}
    (h : Along step AbortHolds (idle own) events) (r : RuntimeId) :
    (runFrom step (idle own) events).peers.lookup r = runFrom (serve own r) none events := by
  suffices hall : ∀ s, Tracked own s → Along step AbortHolds s events →
      (runFrom step s events).peers.lookup r =
        runFrom (serve own r) (s.peers.lookup r) events from hall _ (.idle own) h
  clear h
  induction events with
  | nil => exact fun s _ _ => rfl
  | cons e events ih =>
    intro s htracked halong
    rw [runFrom_cons, runFrom_cons, ih _ (htracked.step e) halong.2, step_serves htracked halong.1]

theorem serve_winner {winner loser : Connection}
    (hwins : newConnectionWins own remote winner.dialedByUs = true)
    (hloses : newConnectionWins own remote loser.dialedByUs = false) {events : List Event}
    (hevents : ∀ e ∈ events, e = .installs remote winner ∨ e = .installs remote loser ∨
      e = .loopEnds remote loser) (current : Option Connection)
    (h : current = some winner ∨ .installs remote winner ∈ events) :
    runFrom (serve own remote) current events = some winner := by
  induction events generalizing current with
  | nil => exact h.resolve_right List.not_mem_nil
  | cons e events ih =>
    obtain ⟨he, hrest⟩ := List.forall_mem_cons.1 hevents
    rw [runFrom_cons]
    have hne : loser ≠ winner := by
      rintro rfl
      rw [hwins] at hloses
      cases hloses
    rcases he with rfl | rfl | rfl
    · exact ih hrest _ (.inl (by simp [serve, hwins]))
    · refine ih hrest _ (h.imp (fun hc => by simp [serve, hc, hloses]) fun hmem => ?_)
      simpa [hne.symm] using hmem
    · refine ih hrest _ (h.imp (fun hc => by simp [serve, hc, hne.symm]) fun hmem => ?_)
      simpa using hmem

/-- While aborted loops do not run on, a connection is only removed by its own loops and only
replaced by one that wins; and of two simultaneous dials both sides keep the one of the smaller
runtime id, whatever the order. -/
theorem connections_agree (own : RuntimeId) (events : List Event)
    (h : Along step AbortHolds (idle own) events) :
    (∀ remote, (runFrom step (idle own) events).peers.lookup remote =
      runFrom (serve own remote) none events) ∧
    ∀ other : RuntimeId, own < other → ∀ n n' : Nat, ∀ atOther : List Event,
      Along step AbortHolds (idle other) atOther →
      .installs other ⟨n, true⟩ ∈ events → .installs own ⟨n, false⟩ ∈ atOther →
      (∀ e ∈ events, e = .installs other ⟨n, true⟩ ∨ e = .installs other ⟨n', false⟩ ∨
        e = .loopEnds other ⟨n', false⟩) →
      (∀ e ∈ atOther, e = .installs own ⟨n, false⟩ ∨ e = .installs own ⟨n', true⟩ ∨
        e = .loopEnds own ⟨n', true⟩) →
      (runFrom step (idle own) events).peers.lookup other = some ⟨n, true⟩ ∧
        (runFrom step (idle other) atOther).peers.lookup own = some ⟨n, false⟩ := by
  refine ⟨fun remote => run_serves own h remote, ?_⟩
  intro other hlt n n' atOther hother hin hin' hall hall'
  have hnot : ¬other < own := by
    rw [BitVec.lt_def] at hlt ⊢
    omega
  constructor
  · rw [run_serves own h]
    exact serve_winner (by simp [newConnectionWins, hlt]) (by simp [newConnectionWins, hlt]) hall _
      (.inr hin)
  · rw [run_serves other hother]
    exact serve_winner (by simp [newConnectionWins, hnot]) (by simp [newConnectionWins, hnot]) hall' _
      (.inr hin')

theorem connections_agree_twice :
    (runFrom step (idle 1) [.installs 2 ⟨1, false⟩, .installs 2 ⟨0, true⟩]).peers.lookup 2 =
        some ⟨0, true⟩ ∧
      (runFrom step (idle 2) [.installs 1 ⟨1, true⟩, .loopEnds 1 ⟨1, true⟩,
        .installs 1 ⟨0, false⟩]).peers.lookup 1 = some ⟨0, false⟩ :=
  (connections_agree 1 _ (by decide +kernel)).2 2 (by decide) 0 1 _ (by decide +kernel) (by simp)
    (by simp) (by simp) (by simp)

theorem winner_removed :
    (runFrom step (idle 2) [.installs 1 ⟨0, true⟩, .installs 1 ⟨1, false⟩]).peers.lookup 1 =
        some ⟨1, false⟩ ∧
      (runFrom step (idle 2) [.installs 1 ⟨0, true⟩, .installs 1 ⟨1, false⟩,
        .loopEnds 1 ⟨0, true⟩]).peers.lookup 1 = none ∧
      (1, ⟨1, false⟩) ∈ (runFrom step (idle 2) [.installs 1 ⟨0, true⟩, .installs 1 ⟨1, false⟩,
        .loopEnds 1 ⟨0, true⟩]).aborted := by
  decide +kernel

theorem started_installPeer {r : RuntimeId} {c : Connection}
    (h : (r, c) ∈ (s.installPeer remote new).started) : r = remote ∨ (r, c) ∈ s.started := by
  unfold installPeer at h
  split at h
  · split at h
    · exact (List.mem_cons.1 h).imp_left (congrArg Prod.fst)
    · exact .inr h
  · exact (List.mem_cons.1 h).imp_left (congrArg Prod.fst)

theorem started_removePeer : (s.removePeer remote).started = s.started := by
  unfold removePeer
  split <;> rfl

end Laws

end Connections

structure Node where
  membership : Membership
  connections : Connections
  -- What is left of this round's candidates, and the runtime whose connection is awaited.
  queue : List RuntimeId
  dialing : Option RuntimeId

namespace Node

def candidates (n : Node) : List GossipRecord :=
  n.membership.records.filter fun record =>
    record.runtimeId ≠ n.membership.localRuntimeId && !record.draining

def isKnownPeer (lib : Crypto) (n : Node) (remote : RuntimeId)
    (rescan : Option (List (ReadyRecord × Nat))) : Node × Bool :=
  if n.membership.hasPeer remote then (n, true)
  else
    let n' := match rescan with
      | some records => { n with membership := n.membership.applyReadyRecords lib records }
      | none => n
    (n', n'.membership.hasPeer remote)

def installPeer (n : Node) (remote : RuntimeId) (c : Connection) : Node :=
  { n with connections := n.connections.installPeer remote c }

def removePeer (n : Node) (remote : RuntimeId) : Node :=
  { n with connections := n.connections.removePeer remote }

def beginRound (n : Node) : Node :=
  if n.queue = [] ∧ n.dialing = none then
    { n with queue := n.candidates.map GossipRecord.runtimeId }
  else n

def nextCandidate (n : Node) : Node :=
  match n.dialing, n.queue with
  | none, remote :: rest =>
    { n with
      queue := rest
      dialing := if (n.connections.peers.lookup remote).isSome then none else some remote }
  | _, _ => n

-- The connection is that of the first address that answered, or there is none.
def dialPeer (n : Node) (connection : Option Nat) : Node :=
  match n.dialing, connection with
  | some remote, some number => { n with dialing := none }.installPeer remote ⟨number, true⟩
  | _, _ => { n with dialing := none }

def exchangesWith (n : Node) (remote : RuntimeId) : Bool :=
  n.connections.started.any (·.1 == remote)

end Node

structure World where
  node : RuntimeId → Node
  deltas : List (RuntimeId × RuntimeId × List GossipRecord)

namespace World

def start (key : String) (addrs : RuntimeId → List String) (proto now : Nat) : World where
  node id := ⟨.new (.new id (addrs id) proto now) (some key), .idle id, [], none⟩
  deltas := []

def set (w : World) (id : RuntimeId) (n : Node) : World :=
  { w with node := Function.update w.node id n }

inductive Event
  | scan (id : RuntimeId) (records : List (ReadyRecord × Nat))
  | tick (id : RuntimeId) (now : Nat)
  | begins (id : RuntimeId)
  | dials (id : RuntimeId)
  | dialed (id : RuntimeId) (connection : Option Nat)
  | accepts (id dialer : RuntimeId) (number : Nat) (rescan : Option (List (ReadyRecord × Nat)))
  | answers (id remote : RuntimeId) (digest : List GossipDigestEntry)
  | delivers (id sender : RuntimeId) (records : List GossipRecord)
  | ends (id remote : RuntimeId)

def Event.ready : Event → List (ReadyRecord × Nat)
  | .scan _ records => records
  | .accepts _ _ _ (some records) => records
  | _ => []

def step (lib : Crypto) (w : World) : Event → World
  | .scan id records =>
    w.set id { w.node id with membership := (w.node id).membership.applyReadyRecords lib records }
  | .tick id now =>
    w.set id { w.node id with membership := (w.node id).membership.updateLocal now }
  | .begins id => w.set id (w.node id).beginRound
  | .dials id => w.set id (w.node id).nextCandidate
  | .dialed id connection => w.set id ((w.node id).dialPeer connection)
  | .accepts id dialer number rescan =>
    let (n, known) := (w.node id).isKnownPeer lib dialer rescan
    w.set id (if known then n.installPeer dialer ⟨number, false⟩ else n)
  | .answers id remote digest =>
    if (w.node id).exchangesWith remote then
      { w with deltas := (id, remote, (w.node id).membership.deltaFor digest) :: w.deltas }
    else w
  | .delivers id sender records =>
    if (w.node id).exchangesWith sender ∧ (sender, id, records) ∈ w.deltas then
      { w.set id { w.node id with membership := (w.node id).membership.applyAll records } with
        deltas := w.deltas.erase (sender, id, records) }
    else w
  | .ends id remote => w.set id ((w.node id).removePeer remote)

/-- Some ready record with the relay's key and a valid attestation has named the runtime. -/
def Attested (lib : Crypto) (key : String) (events : List Event) (id : RuntimeId) : Prop :=
  ∃ e ∈ events, ∃ r ∈ e.ready, r.1.runtimeId = id ∧ r.1.relayPubkey = key ∧
    r.1.verifyAttestation lib = true

structure Sound (key : String) (P : RuntimeId → Prop) (id : RuntimeId) (n : Node) : Prop where
  localId : n.membership.localRuntimeId = id
  expected : n.membership.expectedRelayPubkey = some key
  peers : ∀ x r, n.membership.peers.lookup x = some r → P x
  started : ∀ x c, (x, c) ∈ n.connections.started → P x
  connected : ∀ x c, n.connections.peers.lookup x = some c → P x
  queued : ∀ x ∈ n.queue, P x
  dialing : ∀ x, n.dialing = some x → P x

def Carries (P : RuntimeId → Prop) (delta : RuntimeId × RuntimeId × List GossipRecord) : Prop :=
  ∀ r ∈ delta.2.2, r.runtimeId = delta.1 ∨ P r.runtimeId

section Admission

variable {lib : Crypto} {key : String} {P : RuntimeId → Prop} {id remote : RuntimeId} {n : Node}
  {m : Membership} {w : World}

theorem peers_apply {record : GossipRecord} (h : ∀ x r, m.peers.lookup x = some r → P x)
    (hrecord : P record.runtimeId) :
    ∀ x r, (m.applyGossipRecord record).1.peers.lookup x = some r → P x := by
  intro x r hr
  unfold Membership.applyGossipRecord at hr
  split at hr
  · exact h x r hr
  · split at hr
    · exact h x r hr
    · simp only [Dict.lookup_insert_if] at hr
      split at hr
      · next hx => exact hx ▸ hrecord
      · exact h x r hr

theorem Sound.applyAll (h : Sound key P id n) {records : List GossipRecord}
    (hrecords : ∀ r ∈ records, P r.runtimeId) :
    Sound key P id { n with membership := n.membership.applyAll records } := by
  induction records generalizing n with
  | nil => exact h
  | cons r records ih =>
    obtain ⟨hr, hrest⟩ := List.forall_mem_cons.1 hrecords
    obtain ⟨hlocal, hkey⟩ := Membership.applyGossipRecord_fixed n.membership r
    exact ih (n := { n with membership := (n.membership.applyGossipRecord r).1 })
      ⟨(congrArg GossipRecord.runtimeId hlocal).trans h.localId, hkey.trans h.expected,
        peers_apply h.peers hr, h.started, h.connected, h.queued, h.dialing⟩ hrest

theorem Sound.applyReadyRecords (h : Sound key P id n) {records : List (ReadyRecord × Nat)}
    (hrecords : ∀ r ∈ records, r.1.relayPubkey = key → r.1.verifyAttestation lib = true →
      P r.1.runtimeId) :
    Sound key P id { n with membership := n.membership.applyReadyRecords lib records } := by
  induction records generalizing n with
  | nil => exact h
  | cons r records ih =>
    obtain ⟨hr, hrest⟩ := List.forall_mem_cons.1 hrecords
    obtain ⟨hlocal, hkey⟩ := Membership.applyReadyRecord_fixed lib n.membership r.1 r.2
    refine ih (n := { n with membership := n.membership.applyReadyRecord lib r.1 r.2 })
      ⟨(congrArg GossipRecord.runtimeId hlocal).trans h.localId, hkey.trans h.expected, ?_,
        h.started, h.connected, h.queued, h.dialing⟩ hrest
    unfold Membership.applyReadyRecord
    split
    · exact h.peers
    · split
      · next hadmits =>
        simp only [Membership.admits, Bool.and_eq_true, beq_iff_eq, h.expected,
          Option.some.injEq] at hadmits
        exact peers_apply h.peers (hr hadmits.1.symm hadmits.2)
      · exact h.peers

theorem Sound.installPeer (h : Sound key P id n) (hremote : P remote) (c : Connection) :
    Sound key P id (n.installPeer remote c) := by
  refine ⟨h.localId, h.expected, h.peers, fun x c' hx => ?_, fun x c' hx => ?_, h.queued, h.dialing⟩
  · rcases Connections.started_installPeer hx with rfl | hx
    · exact hremote
    · exact h.started x c' hx
  · rw [Node.installPeer, Connections.lookup_installPeer, Connections.serve] at hx
    split at hx
    · next hr => exact hr.1 ▸ hremote
    · exact h.connected x c' hx

theorem Sound.removePeer (h : Sound key P id n) (remote : RuntimeId) :
    Sound key P id (n.removePeer remote) := by
  refine ⟨h.localId, h.expected, h.peers, fun x c hx => ?_, fun x c hx => ?_, h.queued, h.dialing⟩
  · rw [Node.removePeer, Connections.started_removePeer] at hx
    exact h.started x c hx
  · rw [Node.removePeer, Connections.lookup_removePeer] at hx
    split at hx
    · cases hx
    · exact h.connected x c hx

theorem Sound.record (h : Sound key P id n) {record : GossipRecord}
    (hrecord : record ∈ n.membership.records) : record.runtimeId = id ∨ P record.runtimeId := by
  rcases Membership.mem_records.1 hrecord with rfl | hlookup
  · exact .inl h.localId
  · exact .inr (h.peers _ record hlookup)

theorem Sound.candidates (h : Sound key P id n) {record : GossipRecord}
    (hrecord : record ∈ n.candidates) : P record.runtimeId := by
  simp only [Node.candidates, List.mem_filter, Bool.and_eq_true, decide_eq_true_eq, ne_eq] at hrecord
  refine (h.record hrecord.1).resolve_left fun heq => ?_
  exact hrecord.2.1 (heq.trans h.localId.symm)

theorem Sound.beginRound (h : Sound key P id n) : Sound key P id n.beginRound := by
  unfold Node.beginRound
  split
  · refine ⟨h.localId, h.expected, h.peers, h.started, h.connected, fun x hx => ?_, h.dialing⟩
    obtain ⟨record, hrecord, rfl⟩ := List.mem_map.1 hx
    exact h.candidates hrecord
  · exact h

theorem Sound.nextCandidate (h : Sound key P id n) : Sound key P id n.nextCandidate := by
  unfold Node.nextCandidate
  split
  · next remote rest hdialing hqueue =>
    have hqueued := hqueue ▸ h.queued
    refine ⟨h.localId, h.expected, h.peers, h.started, h.connected,
      fun x hx => hqueued x (List.mem_cons_of_mem _ hx), fun x hx => ?_⟩
    dsimp only at hx
    split at hx
    · cases hx
    · exact (Option.some.inj hx) ▸ hqueued remote List.mem_cons_self
  · exact h

theorem Sound.dialPeer (h : Sound key P id n) (connection : Option Nat) :
    Sound key P id (n.dialPeer connection) := by
  have hidle : Sound key P id { n with dialing := none } :=
    ⟨h.localId, h.expected, h.peers, h.started, h.connected, h.queued, fun _ hx => by cases hx⟩
  unfold Node.dialPeer
  split
  · next remote number hdialing => exact hidle.installPeer (h.dialing remote hdialing) _
  · exact hidle

theorem Sound.isKnownPeer (h : Sound key P id n) (remote : RuntimeId)
    {rescan : Option (List (ReadyRecord × Nat))}
    (hrecords : ∀ records, rescan = some records → ∀ r ∈ records, r.1.relayPubkey = key →
      r.1.verifyAttestation lib = true → P r.1.runtimeId) :
    Sound key P id (n.isKnownPeer lib remote rescan).1 ∧
      ((n.isKnownPeer lib remote rescan).2 = true → P remote) := by
  have hknown {n : Node} (h : Sound key P id n) (hpeer : n.membership.hasPeer remote = true) :
      P remote := by
    obtain ⟨r, hr⟩ := Option.isSome_iff_exists.1 hpeer
    exact h.peers remote r hr
  unfold Node.isKnownPeer
  split
  · next hpeer => exact ⟨h, fun _ => hknown h hpeer⟩
  · cases rescan with
    | none => exact ⟨h, hknown h⟩
    | some records =>
      have hscanned := h.applyReadyRecords (hrecords records rfl)
      exact ⟨hscanned, hknown hscanned⟩

structure Safe (key : String) (P : RuntimeId → Prop) (w : World) : Prop where
  nodes : ∀ id, Sound key P id (w.node id)
  deltas : ∀ d ∈ w.deltas, Carries P d

theorem Safe.set (h : Safe key P w) (hn : Sound key P id n) : Safe key P (w.set id n) := by
  refine ⟨fun x => ?_, h.deltas⟩
  by_cases hx : x = id
  · subst hx
    simpa [World.set] using hn
  · simpa [World.set, Function.update_of_ne hx] using h.nodes x

theorem Safe.mono {Q : RuntimeId → Prop} (h : Safe key P w) (hPQ : ∀ x, P x → Q x) :
    Safe key Q w :=
  ⟨fun id => ⟨(h.nodes id).localId, (h.nodes id).expected, fun x r hr => hPQ x ((h.nodes id).peers x r hr),
    fun x c hc => hPQ x ((h.nodes id).started x c hc),
    fun x c hc => hPQ x ((h.nodes id).connected x c hc),
    fun x hx => hPQ x ((h.nodes id).queued x hx), fun x hx => hPQ x ((h.nodes id).dialing x hx)⟩,
    fun d hd r hr => (h.deltas d hd r hr).imp_right (hPQ _)⟩

theorem Safe.step (h : Safe key P w) {e : Event} (he : ∀ r ∈ e.ready, r.1.relayPubkey = key →
      r.1.verifyAttestation lib = true → P r.1.runtimeId) : Safe key P (w.step lib e) := by
  have hexchange {id remote : RuntimeId} (hx : (w.node id).exchangesWith remote = true) : P remote := by
    obtain ⟨⟨x, c⟩, hmem, hx⟩ := List.any_eq_true.1 hx
    exact (beq_iff_eq.1 hx) ▸ (h.nodes id).started x c hmem
  cases e with
  | scan id records => exact h.set ((h.nodes id).applyReadyRecords he)
  | tick id now =>
    exact h.set ⟨(h.nodes id).localId, (h.nodes id).expected, (h.nodes id).peers,
      (h.nodes id).started, (h.nodes id).connected, (h.nodes id).queued, (h.nodes id).dialing⟩
  | begins id => exact h.set (h.nodes id).beginRound
  | dials id => exact h.set (h.nodes id).nextCandidate
  | dialed id connection => exact h.set ((h.nodes id).dialPeer connection)
  | accepts id dialer number rescan =>
    have hready : ∀ records, rescan = some records → ∀ r ∈ records, r.1.relayPubkey = key →
        r.1.verifyAttestation lib = true → P r.1.runtimeId := by
      rintro records rfl
      exact he
    obtain ⟨hsound, hknown⟩ := (h.nodes id).isKnownPeer dialer hready
    simp only [World.step]
    cases hk : ((w.node id).isKnownPeer lib dialer rescan).2 with
    | false => exact h.set hsound
    | true => exact h.set (hsound.installPeer (hknown hk) _)
  | answers id remote digest =>
    simp only [World.step]
    split
    · refine ⟨h.nodes, fun d hd => ?_⟩
      rcases List.mem_cons.1 hd with rfl | hd
      · intro r hr
        simp only [Membership.deltaFor, List.mem_insertionSort, List.mem_filter] at hr
        exact (h.nodes id).record hr.1
      · exact h.deltas d hd
    · exact h
  | delivers id sender records =>
    simp only [World.step]
    split
    · next hdelivers =>
      -- a node that exchanges with the sender has admitted or dialed it
      have hsender := hexchange hdelivers.1
      have hrecords : ∀ r ∈ records, P r.runtimeId := by
        intro r hr
        rcases h.deltas _ hdelivers.2 r hr with heq | hP
        · exact heq ▸ hsender
        · exact hP
      have hset := h.set ((h.nodes id).applyAll hrecords)
      exact ⟨hset.nodes, fun d hd => h.deltas d (List.mem_of_mem_erase hd)⟩
    · exact h
  | ends id remote => exact h.set ((h.nodes id).removePeer remote)

theorem safe_run (lib : Crypto) (key : String) (addrs : RuntimeId → List String) (proto now : Nat)
    (events : List Event) : Safe key (Attested lib key events)
      (runFrom (step lib) (start key addrs proto now) events) := by
  refine runFrom_history (p := fun events w => Safe key (Attested lib key events) w) ?_
    (fun earlier e ih => ?_) events
  · exact ⟨fun id => ⟨rfl, rfl, fun _ _ hr => (by cases hr), fun _ _ hc => absurd hc List.not_mem_nil,
      fun _ _ hc => (by cases hc), fun _ hx => absurd hx List.not_mem_nil,
      fun _ hx => (by cases hx)⟩, fun _ hd => absurd hd List.not_mem_nil⟩
  · refine (ih.mono fun x hx => ?_).step fun r hr hkey hverify =>
      ⟨e, by simp, r, hr, rfl, hkey, hverify⟩
    obtain ⟨e', he', hattested⟩ := hx
    exact ⟨e', List.mem_append_left _ he', hattested⟩

/-- However a run goes, every runtime in a table, every peer that was admitted or dialed, and every
candidate for a dial was named by a valid ready record of the relay. -/
theorem mesh_attested (lib : Crypto) (key : String) (addrs : RuntimeId → List String)
    (proto now : Nat) (events : List Event) (id x : RuntimeId) :
    let n := (runFrom (step lib) (start key addrs proto now) events).node id
    (n.membership.hasPeer x = true ∨ (n.connections.peers.lookup x).isSome ∨
      (∃ c, (x, c) ∈ n.connections.started) ∨ n.dialing = some x ∨
      ∃ record ∈ n.candidates, record.runtimeId = x) →
      Attested lib key events x := by
  have hsound := (safe_run lib key addrs proto now events).nodes id
  rintro n (hpeer | hconnected | ⟨c, hstarted⟩ | hdialing | ⟨record, hrecord, rfl⟩)
  · obtain ⟨r, hr⟩ := Option.isSome_iff_exists.1 hpeer
    exact hsound.peers x r hr
  · obtain ⟨c, hc⟩ := Option.isSome_iff_exists.1 hconnected
    exact hsound.connected x c hc
  · exact hsound.started x c hstarted
  · exact hsound.dialing x hdialing
  · exact hsound.candidates hrecord

end Admission

section Sample

def dialing : List Event :=
  [.scan 1 [(Membership.seed, 10)], .begins 1, .dials 1, .dialed 1 (some 0),
    .accepts 3 1 0 (some [({ Membership.seed with runtimeId := 1 }, 12)]),
    .scan 3 [({ Membership.seed with runtimeId := 4 }, 13)], .answers 3 1 []]

def trustingStart : World := start "relay" (fun _ => []) 1 0

-- The answer to the empty digest brings runtime 4, which the dialer has not read of.
def gossiping : List Event :=
  dialing ++ [.delivers 1 3
    (((runFrom (step Membership.trusting) trustingStart dialing).node 3).membership.deltaFor [])]

end Sample

theorem mesh_attested_scan :
    (((runFrom (step Membership.trusting) trustingStart gossiping).node 1).membership.hasPeer 4 =
        true ∧ Attested Membership.trusting "relay" gossiping 4) ∧
      (((runFrom (step Membership.trusting) trustingStart gossiping).node 3).connections.peers.lookup
        1).isSome ∧ Attested Membership.trusting "relay" gossiping 1 := by
  have hpeer : ((runFrom (step Membership.trusting) trustingStart gossiping).node
    1).membership.hasPeer 4 = true := by decide +kernel
  have hconnected : (((runFrom (step Membership.trusting) trustingStart gossiping).node
    3).connections.peers.lookup 1).isSome = true := by decide +kernel
  exact ⟨⟨hpeer, mesh_attested Membership.trusting "relay" (fun _ => []) 1 0 _ 1 4 (.inl hpeer)⟩,
    hconnected, mesh_attested Membership.trusting "relay" (fun _ => []) 1 0 _ 3 1 (.inr (.inl hconnected))⟩

end World

end Colony.Mesh
