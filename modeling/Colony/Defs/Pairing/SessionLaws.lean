import Colony.Defs.Data.History
import Colony.Defs.Data.Run
import Colony.Defs.Pairing.Session

namespace Colony.Pairing

open Colony.Core Colony.Data

variable {Key : Type} {L : Library Key} {s s' : Session Key} {now : Nat} {c : Call} {e : Event}

namespace Session

theorem turn_eq_ok {state : SessionState} {role : Role} : s.turn now state role = .ok () ↔
    s.isExpired now = false ∧ s.state = state ∧ s.role = role := by
  simp only [turn, checkExpired, expectState, expectRole]
  by_cases hexpired : s.isExpired now <;> by_cases hstate : s.state = state <;>
    by_cases hrole : s.role = role <;> simp [hexpired, hstate, hrole, bind, Except.bind]

theorem validateEventBasics_eq_ok : s.validateEventBasics L e = .ok () ↔
    L.verify e = true ∧ e.id ∉ s.processedIds ∧ e.kind = pairingKind ∧ s.hasPTag L e = true := by
  simp only [validateEventBasics]
  by_cases hverify : L.verify e <;> by_cases hid : e.id ∈ s.processedIds <;>
    by_cases hkind : e.kind = pairingKind <;> by_cases htag : s.hasPTag L e <;>
      simp [hverify, hid, hkind, htag]

theorem validateEventFromPeer_eq_ok : s.validateEventFromPeer L e = .ok () ↔
    s.validateEventBasics L e = .ok () ∧ ∀ peer, s.peerPubkey = some peer → e.pubkey = peer := by
  simp only [validateEventFromPeer]
  cases s.validateEventBasics L e with
  | error err => simp [bind, Except.bind]
  | ok =>
    cases s.peerPubkey with
    | none => simp [bind, Except.bind]
    | some peer => by_cases h : e.pubkey = peer <;> simp [bind, Except.bind, h]

theorem opened_eq_ok {state : SessionState} {role : Role} {m : PairingMessage} :
    s.opened L now state role e = .ok m ↔ s.turn now state role = .ok () ∧
      s.validateEventFromPeer L e = .ok () ∧ s.decryptMessage L e = .ok m := by
  simp only [opened]
  cases s.turn now state role <;> cases s.validateEventFromPeer L e <;> simp [bind, Except.bind]

theorem offered_eq_ok (h : s.offered L now e = .ok ()) : s.turn now .waiting .source = .ok () ∧
    s.validateEventBasics L e = .ok () := by
  simp only [offered] at h
  cases hturn : s.turn now .waiting .source <;> cases hbasics : s.validateEventBasics L e <;>
    simp [hturn, hbasics, bind, Except.bind] at h ⊢

def locked (s : Session Key) (L : Library Key) (e : Event) (ecdh : Bytes32) : Session Key :=
  { s with
    peerPubkey := some e.pubkey
    sasCode := some (deriveSas L ecdh s.sessionSecret).1
    sasInput := some (deriveSas L ecdh s.sessionSecret).2
    state := .confirming
    processedIds := e.id :: s.processedIds }

inductive Turns (L : Library Key) (now : Nat) (s : Session Key) :
    Call → Session Key → Except PairingError Output → Prop
  | refused (c : Call) (err : PairingError) : Turns L now s c s (.error err)
  | signed {d kind tags content} {e : Event} (hsign : s.sign L d kind tags content = .ok e) :
    Turns L now s (.signEvent d kind tags content) s (.ok (.event e))
  -- The peer is set although no key could be agreed on.
  | unshared {e : Event} (hoffered : s.offered L now e = .ok ()) :
    Turns L now s (.handleOffer e) { s with peerPubkey := some e.pubkey } (.error .signingError)
  | offer {e : Event} {ecdh : Bytes32} (hoffered : s.offered L now e = .ok ()) {code : String} :
    Turns L now s (.handleOffer e) (s.locked L e ecdh) (.ok (.sas code))
  | sasConfirmed {d hash} {e : Event} (hturn : s.turn now .confirming .source = .ok ())
    (hhash : s.transcriptHash L = .ok hash)
    (hbuilt : s.buildEvent L d (.sasConfirm (L.hex.encode hash)) = .ok e) :
    Turns L now s (.confirmSas d) { s with state := .transferring } (.ok (.event e))
  | returned {e : Event} {payloadType payload}
    (hopened : s.opened L now .transferring .source e = .ok (.payload payloadType payload)) :
    Turns L now s (.handleReturnPayload e) ({ s with state := .payloadExchanged }.recordEvent e)
      (.ok (.payload payloadType payload))
  | sourceCompleted {d success} {e : Event} (hturn : s.turn now .payloadExchanged .source = .ok ())
    (hbuilt : s.buildEvent L d (.complete success) = .ok e) :
    Turns L now s (.sendSourceComplete d success)
      { s with state := if success then .completed else .aborted } (.ok (.event e))
  | sent {d payloadType payload} {e : Event} (hturn : s.turn now .transferring .source = .ok ())
    (hbuilt : s.buildEvent L d (.payload payloadType payload) = .ok e) :
    Turns L now s (.sendPayload d payloadType payload) { s with state := .payloadExchanged }
      (.ok (.event e))
  | completed {e : Event} (hopened : s.opened L now .payloadExchanged .source e = .ok (.complete true)) :
    Turns L now s (.handleComplete e) ({ s with state := .completed }.recordEvent e) (.ok .done)
  | failed {e : Event} {err} (hopened : s.opened L now .payloadExchanged .source e = .ok (.complete false)) :
    Turns L now s (.handleComplete e) { s with state := .aborted } (.error err)
  | mismatched {e : Event} {received} (hopened : s.opened L now .confirming .target e = .ok (.sasConfirm received)) :
    Turns L now s (.handleSasConfirm e) { s with state := .aborted } (.error .transcriptMismatch)
  | unshown {e : Event} {received} (hopened : s.opened L now .confirming .target e = .ok (.sasConfirm received))
    (hcode : s.sasCode = none) :
    Turns L now s (.handleSasConfirm e) ({ s with state := .awaitingConfirmation }.recordEvent e)
      (.error .sasMismatch)
  | awaiting {e : Event} {received hash} {code : String}
    (hopened : s.opened L now .confirming .target e = .ok (.sasConfirm received))
    (hhash : s.transcriptHash L = .ok hash) (hreceived : L.hex.decode received = some hash) :
    Turns L now s (.handleSasConfirm e) ({ s with state := .awaitingConfirmation }.recordEvent e)
      (.ok (.sas code))
  | targetConfirmed (hturn : s.turn now .awaitingConfirmation .target = .ok ()) :
    Turns L now s .confirmTargetSas { s with state := .transferring } (.ok .done)
  | received {e : Event} {payloadType payload}
    (hopened : s.opened L now .transferring .target e = .ok (.payload payloadType payload)) :
    Turns L now s (.handlePayload e) ({ s with state := .payloadExchanged }.recordEvent e)
      (.ok (.payload payloadType payload))
  | targetCompleted {d} {e : Event} (hturn : s.turn now .payloadExchanged .target = .ok ())
    (hbuilt : s.buildEvent L d (.complete true) = .ok e) :
    Turns L now s (.sendComplete d) { s with state := .completed } (.ok (.event e))
  | abortedAlone {d reason} (hopen : s.state.terminal = false) :
    Turns L now s (.abort d reason) { s with state := .aborted } (.ok (.aborted none))
  | aborted {d reason} {e : Event} (hopen : s.state.terminal = false)
    (hbuilt : s.buildEvent L d (.abort reason) = .ok e) :
    Turns L now s (.abort d reason) { s with state := .aborted } (.ok (.aborted (some e)))
  | abortHandled {e : Event} {reason} (hopen : s.state.terminal = false) (hpeer : s.peerPubkey.isSome = true)
    (hvalid : s.validateEventFromPeer L e = .ok ()) :
    Turns L now s (.handleAbort e) ({ s with state := .aborted }.recordEvent e) (.ok (.reason reason))

theorem emit_cases (L : Library Key) (s : Session Key) (checks : Except PairingError PairingMessage) (d : Draw) (next : SessionState) :
    (∃ err, s.emit L checks d next = (s, .error err)) ∨ ∃ m e, checks = .ok m ∧
      s.buildEvent L d m = .ok e ∧ s.emit L checks d next = ({ s with state := next }, .ok e) := by
  simp only [emit]
  cases checks with
  | error err => exact .inl ⟨err, rfl⟩
  | ok m =>
    cases hbuilt : s.buildEvent L d m with
    | error err => exact .inl ⟨err, by simp [bind, Except.bind, hbuilt]⟩
    | ok e => exact .inr ⟨m, e, rfl, hbuilt, by simp [bind, Except.bind, hbuilt]⟩

theorem receivePayload_cases (L : Library Key) (now : Nat) (s : Session Key) (role : Role) (e : Event) :
    (∃ err, s.receivePayload L now role e = (s, .error err)) ∨ ∃ payloadType payload,
      s.opened L now .transferring role e = .ok (.payload payloadType payload) ∧
      s.receivePayload L now role e =
        ({ s with state := .payloadExchanged }.recordEvent e, .ok (payloadType, payload)) := by
  simp only [receivePayload]
  split
  · next err hopened => exact .inl ⟨err, rfl⟩
  · next payloadType payload hopened => exact .inr ⟨payloadType, payload, hopened, rfl⟩
  · exact .inl ⟨_, rfl⟩

theorem notTerminal_eq_ok : s.notTerminal = .ok () ↔ s.state.terminal = false := by
  simp only [notTerminal]
  split <;> simp_all

theorem call_turns (L : Library Key) (now : Nat) (s : Session Key) (c : Call) :
    Turns L now s c (s.call L now c).1 (s.call L now c).2 := by
  have hchecks {state : SessionState} {role : Role} {m m' : PairingMessage}
      (h : (do s.turn now state role; return m : Except PairingError PairingMessage) = .ok m') :
      s.turn now state role = .ok () ∧ m = m' := by
    cases hturn : s.turn now state role <;> simp [hturn, bind, Except.bind, pure, Except.pure] at h
    exact ⟨rfl, h⟩
  cases c with
  | handleOffer e =>
    simp only [call, handleOffer]
    split
    · exact .refused _ _
    · next hoffered =>
      split
      · exact .unshared hoffered
      · next ecdh _ => exact .offer hoffered
  | confirmSas d =>
    simp only [call, confirmSas]
    rcases emit_cases L s _ d .transferring with ⟨err, heq⟩ | ⟨m, e, hm, hbuilt, heq⟩
    · rw [heq]
      exact .refused _ err
    · rw [heq]
      cases hturn : s.turn now .confirming .source with
      | error err => simp [hturn, bind, Except.bind] at hm
      | ok =>
        cases hhash : s.transcriptHash L with
        | error err => simp [hturn, hhash, bind, Except.bind] at hm
        | ok hash =>
          simp only [hturn, hhash, bind, Except.bind, pure, Except.pure, Except.ok.injEq] at hm
          subst hm
          exact .sasConfirmed hturn hhash hbuilt
  | handleReturnPayload e =>
    simp only [call, handleReturnPayload]
    rcases receivePayload_cases L now s .source e with ⟨err, heq⟩ |
      ⟨payloadType, payload, hopened, heq⟩
    · rw [heq]
      exact .refused _ err
    · rw [heq]
      exact .returned hopened
  | sendSourceComplete d success =>
    simp only [call, sendSourceComplete]
    rcases emit_cases L s _ d _ with ⟨err, heq⟩ | ⟨m, e, hm, hbuilt, heq⟩
    · rw [heq]
      exact .refused _ err
    · rw [heq]
      obtain ⟨hturn, rfl⟩ := hchecks hm
      exact .sourceCompleted hturn hbuilt
  | sendPayload d payloadType payload =>
    simp only [call, sendPayload]
    rcases emit_cases L s _ d _ with ⟨err, heq⟩ | ⟨m, e, hm, hbuilt, heq⟩
    · rw [heq]
      exact .refused _ err
    · rw [heq]
      obtain ⟨hturn, rfl⟩ := hchecks hm
      exact .sent hturn hbuilt
  | handleComplete e =>
    simp only [call, handleComplete]
    split
    · exact .refused _ _
    · next hopened => exact .completed hopened
    · next hopened => exact .failed hopened
    · exact .refused _ _
  | handleSasConfirm e =>
    simp only [call, handleSasConfirm]
    split
    · exact .refused _ _
    · next received hopened =>
      split
      · exact .refused _ _
      · next hash hhash =>
        split
        · exact .mismatched hopened
        · next hreceived =>
          rw [not_not] at hreceived
          split
          · next hcode => exact .unshown hopened hcode
          · exact .awaiting hopened hhash hreceived
    · exact .refused _ _
  | confirmTargetSas =>
    simp only [call, confirmTargetSas]
    split
    · exact .refused _ _
    · next hturn => exact .targetConfirmed hturn
  | handlePayload e =>
    simp only [call, handlePayload]
    rcases receivePayload_cases L now s .target e with ⟨err, heq⟩ |
      ⟨payloadType, payload, hopened, heq⟩
    · rw [heq]
      exact .refused _ err
    · rw [heq]
      exact .received hopened
  | sendComplete d =>
    simp only [call, sendComplete]
    rcases emit_cases L s _ d _ with ⟨err, heq⟩ | ⟨m, e, hm, hbuilt, heq⟩
    · rw [heq]
      exact .refused _ err
    · rw [heq]
      obtain ⟨hturn, rfl⟩ := hchecks hm
      exact .targetCompleted hturn hbuilt
  | abort d reason =>
    simp only [call, abort]
    split
    · exact .refused _ _
    · next hopen =>
      rw [notTerminal_eq_ok] at hopen
      split
      · exact .abortedAlone hopen
      · split
        · exact .refused _ _
        · next e hbuilt => exact .aborted hopen hbuilt
  | handleAbort e =>
    simp only [call, handleAbort]
    split
    · exact .refused _ _
    · next reason hopened =>
      cases hopen : s.notTerminal with
      | error err => simp [hopen, bind, Except.bind] at hopened
      | ok =>
        by_cases hpeer : s.peerPubkey.isNone
        · simp [hopen, hpeer, bind, Except.bind] at hopened
        · cases hvalid : s.validateEventFromPeer L e with
          | error err => simp [hopen, hpeer, hvalid, bind, Except.bind] at hopened
          | ok => 
            exact .abortHandled (notTerminal_eq_ok.1 hopen)
              (Option.isSome_iff_ne_none.2 (by simpa using hpeer)) hvalid
    · exact .refused _ _
  | signEvent d kind tags content =>
    simp only [call]
    cases hsign : s.sign L d kind tags content with
    | error err => exact .refused _ err
    | ok e => exact .signed hsign

end Session

abbrev Entry := Call × Except PairingError Output

def accepts : Entry → Option Event
  | (.handleOffer e, .ok _) => some e
  | (.handleReturnPayload e, .ok _) => some e
  | (.handleComplete e, .ok _) => some e
  | (.handleSasConfirm e, .ok _) => some e
  | (.handlePayload e, .ok _) => some e
  | (.handleAbort e, .ok _) => some e
  | _ => none

def movesPayload : Entry → Bool
  | (.sendPayload _ _ _, .ok _) => true
  | (.handlePayload _, .ok _) => true
  | (.handleReturnPayload _, .ok _) => true
  | _ => false

@[simp] theorem accepts_error (c : Call) (err : PairingError) : accepts (c, .error err) = none := by
  cases c <;> rfl

@[simp] theorem movesPayload_error (c : Call) (err : PairingError) :
    movesPayload (c, .error err) = false := by
  cases c <;> rfl

def SessionState.rank : SessionState → Nat
  | .waiting => 0
  | .confirming => 1
  | .awaitingConfirmation => 2
  | .transferring => 3
  | .payloadExchanged => 4
  | .completed | .aborted => 5

theorem SessionState.rank_lt {state : SessionState} (h : state.terminal = false) : state.rank < 5 := by
  cases state <;> first | decide | cases h

namespace Session.Turns

variable {r : Except PairingError Output}

theorem frame (h : Turns L now s c s' r) : s'.role = s.role ∧ s'.keys = s.keys ∧
    s'.createdAt = s.createdAt ∧ s'.timeout = s.timeout ∧ s'.sessionSecret = s.sessionSecret ∧
    s'.sessionId = s.sessionId ∧ (s.sasCode.isSome = true → s'.sasCode.isSome = true) := by
  cases h <;> exact ⟨rfl, rfl, rfl, rfl, rfl, rfl, by first | exact id | exact fun _ => rfl⟩

theorem forward (h : Turns L now s c s' r) :
    s'.state = s.state ∨ s.state.terminal = false ∧ s.state.rank < s'.state.rank := by
  cases h with
  | refused | signed | unshared => exact .inl rfl
  | offer hoffered =>
    have hstate := (turn_eq_ok.1 (offered_eq_ok hoffered).1).2.1
    exact .inr (by simp [hstate, locked, SessionState.terminal, SessionState.rank])
  | sasConfirmed hturn | sent hturn | targetConfirmed hturn | targetCompleted hturn =>
    have hstate := (turn_eq_ok.1 hturn).2.1
    exact .inr (by simp [hstate, SessionState.terminal, SessionState.rank])
  | @sourceCompleted d success e hturn =>
    have hstate := (turn_eq_ok.1 hturn).2.1
    exact .inr (by cases success <;> simp [hstate, SessionState.terminal, SessionState.rank])
  | returned hopened | completed hopened | failed hopened | mismatched hopened | unshown hopened
  | awaiting hopened | received hopened =>
    have hstate := (turn_eq_ok.1 (opened_eq_ok.1 hopened).1).2.1
    exact .inr (by simp [hstate, recordEvent, SessionState.terminal, SessionState.rank])
  | abortedAlone hopen | aborted hopen | abortHandled hopen =>
    exact .inr ⟨hopen, SessionState.rank_lt hopen⟩

theorem expired (h : Turns L now s c s' r) (hexpired : s.isExpired now = true) :
    s'.state = s.state ∨ s'.state = .aborted := by
  have hturn {state : SessionState} {role : Role} : s.turn now state role ≠ .ok () := by
    rw [Ne, turn_eq_ok, hexpired]
    simp
  cases h with
  | refused | signed | unshared => exact .inl rfl
  | offer hoffered => exact absurd (offered_eq_ok hoffered).1 hturn
  | sasConfirmed h | sent h | targetConfirmed h | targetCompleted h | sourceCompleted h =>
    exact absurd h hturn
  | returned hopened | completed hopened | failed hopened | mismatched hopened | unshown hopened
  | awaiting hopened | received hopened => exact absurd (opened_eq_ok.1 hopened).1 hturn
  | abortedAlone | aborted | abortHandled => exact .inr rfl

theorem peer (h : Turns L now s c s' r) :
    s'.peerPubkey = s.peerPubkey ∨ s.state = .waiting ∧ s.role = .source := by
  cases h with
  | unshared hoffered | offer hoffered => exact .inr (turn_eq_ok.1 (offered_eq_ok hoffered).1).2
  | _ => exact .inl rfl

theorem processed (h : Turns L now s c s' r) {id : EventId} (hid : id ∈ s.processedIds) :
    id ∈ s'.processedIds := by
  cases h <;> first | exact hid | exact List.mem_cons_of_mem _ hid

theorem accepted (h : Turns L now s c s' r) (he : accepts (c, r) = some e) :
    e.id ∉ s.processedIds ∧ e.id ∈ s'.processedIds ∧
      (c = .handleOffer e ∧ s.state = .waiting ∧ s.role = .source ∧ s'.peerPubkey = some e.pubkey ∧
          s'.state = .confirming ∨
        (∀ e', c ≠ .handleOffer e') ∧ ∀ peer, s.peerPubkey = some peer → e.pubkey = peer) := by
  have hfrom {e : Event} (hvalid : s.validateEventFromPeer L e = .ok ()) :
      e.id ∉ s.processedIds ∧ ∀ peer, s.peerPubkey = some peer → e.pubkey = peer := by
    obtain ⟨hbasics, hpeer⟩ := validateEventFromPeer_eq_ok.1 hvalid
    exact ⟨(validateEventBasics_eq_ok.1 hbasics).2.1, hpeer⟩
  cases h with
  | refused | unshared | failed | mismatched | unshown => simp at he
  | offer hoffered =>
    cases he
    obtain ⟨hturn, hbasics⟩ := offered_eq_ok hoffered
    obtain ⟨-, hstate, hrole⟩ := turn_eq_ok.1 hturn
    exact ⟨(validateEventBasics_eq_ok.1 hbasics).2.1, List.mem_cons_self,
      .inl ⟨rfl, hstate, hrole, rfl, rfl⟩⟩
  | returned hopened | completed hopened | awaiting hopened | received hopened =>
    cases he
    obtain ⟨hid, hpeer⟩ := hfrom (opened_eq_ok.1 hopened).2.1
    exact ⟨hid, List.mem_cons_self, .inr ⟨by simp, hpeer⟩⟩
  | abortHandled _ _ hvalid =>
    cases he
    obtain ⟨hid, hpeer⟩ := hfrom hvalid
    exact ⟨hid, List.mem_cons_self, .inr ⟨by simp, hpeer⟩⟩
  | _ => cases he

theorem payload (h : Turns L now s c s' r) (hmoves : movesPayload (c, r) = true) :
    s.state = .transferring ∧ s'.state = .payloadExchanged ∧
      ((∃ e, c = .handlePayload e) → s.role = .target) ∧
      ((∃ d t p, c = .sendPayload d t p) → s.role = .source) := by
  cases h with
  | refused | unshared | failed | mismatched | unshown => simp at hmoves
  | sent hturn =>
    obtain ⟨-, hstate, hrole⟩ := turn_eq_ok.1 hturn
    exact ⟨hstate, rfl, by simp, fun _ => hrole⟩
  | returned hopened =>
    obtain ⟨-, hstate, -⟩ := turn_eq_ok.1 (opened_eq_ok.1 hopened).1
    exact ⟨hstate, rfl, by simp, by simp⟩
  | received hopened =>
    obtain ⟨-, hstate, hrole⟩ := turn_eq_ok.1 (opened_eq_ok.1 hopened).1
    exact ⟨hstate, rfl, fun _ => hrole, by simp⟩
  | _ => cases hmoves

theorem confirm (h : Turns L now s c s' r) (hmoved : s'.state ≠ s.state) :
    (s'.state = .awaitingConfirmation → s.role = .target ∧
      (s.sasCode = none ∨ ∃ e o, c = .handleSasConfirm e ∧ r = .ok o)) ∧
    (s'.state = .transferring → (s.role = .source ∧ ∃ d o, c = .confirmSas d ∧ r = .ok o) ∨
      s.role = .target ∧ s.state = .awaitingConfirmation ∧ c = .confirmTargetSas ∧ ∃ o, r = .ok o) := by
  cases h with
  | refused | signed | unshared => exact absurd rfl hmoved
  | sasConfirmed hturn => exact ⟨nofun, fun _ => .inl ⟨(turn_eq_ok.1 hturn).2.2, _, _, rfl, rfl⟩⟩
  | targetConfirmed hturn =>
    obtain ⟨-, hstate, hrole⟩ := turn_eq_ok.1 hturn
    exact ⟨nofun, fun _ => .inr ⟨hrole, hstate, rfl, _, rfl⟩⟩
  | unshown hopened hcode =>
    exact ⟨fun _ => ⟨(turn_eq_ok.1 (opened_eq_ok.1 hopened).1).2.2, .inl hcode⟩, nofun⟩
  | awaiting hopened =>
    exact ⟨fun _ => ⟨(turn_eq_ok.1 (opened_eq_ok.1 hopened).1).2.2, .inr ⟨_, _, rfl, rfl⟩⟩, nofun⟩
  | @sourceCompleted d success e hturn =>
    cases success <;> exact ⟨nofun, nofun⟩
  | _ => exact ⟨nofun, nofun⟩

end Session.Turns

structure Played (Key : Type) where
  session : Session Key
  clock : Nat
  log : List Entry

def play (L : Library Key) (p : Played Key) (x : Nat × Call) : Played Key :=
  let now := p.clock + x.1
  let r := p.session.call L now x.2
  ⟨r.1, now, p.log ++ [(x.2, r.2)]⟩

inductive Created (L : Library Key) : Played Key → Prop
  | source (now : Nat) (keys : Key) (secret : Bytes32) :
    Created L ⟨(Session.newSource L now keys secret).1, now, []⟩
  | target {now : Nat} {qr : QrPayload} {keys : Key} {d : Draw} {s : Session Key} {e : Event}
    (h : Session.newTarget L now qr keys d = .ok (s, e)) : Created L ⟨s, now, []⟩

/-- What was accepted is new and from the peer, and payloads come after the confirmations. -/
structure Orderly (s₀ : Session Key) (before : List Entry) (x : Entry) : Prop where
  fresh : ∀ e, accepts x = some e → e.id ∉ (before.filterMap accepts).map Event.id
  offered : ∀ e, accepts x = some e → ∀ e₀ o, (.handleOffer e₀, .ok o) ∈ before → e.pubkey = e₀.pubkey
  scanned : ∀ e, accepts x = some e → s₀.role = .target → s₀.peerPubkey = some e.pubkey
  received : ∀ e o, x = (.handlePayload e, .ok o) →
    (∃ e' o', (.handleSasConfirm e', .ok o') ∈ before) ∧ ∃ o', (.confirmTargetSas, .ok o') ∈ before
  sent : ∀ d t p o, x = (.sendPayload d t p, .ok o) → ∃ d' o', (.confirmSas d', .ok o') ∈ before

structure Sound (s₀ : Session Key) (p : Played Key) : Prop where
  role : p.session.role = s₀.role
  entries : Each (Orderly s₀) p.log
  processed : ∀ e ∈ p.log.filterMap accepts, e.id ∈ p.session.processedIds
  offered : ∀ e o, (.handleOffer e, .ok o) ∈ p.log → p.session.peerPubkey = some e.pubkey ∧
    p.session.state ≠ .waiting
  scanned : s₀.role = .target → (∃ peer, s₀.peerPubkey = some peer) ∧
    p.session.peerPubkey = s₀.peerPubkey ∧ p.session.sasCode.isSome = true
  single : (p.log.filter movesPayload).length ≤ 1
  none : p.session.state.rank < 4 → p.log.filter movesPayload = []
  awaited : s₀.role = .target → p.session.state = .awaitingConfirmation ∨
    p.session.state = .transferring → ∃ e o, (.handleSasConfirm e, .ok o) ∈ p.log
  approved : s₀.role = .target → p.session.state = .transferring →
    ∃ o, (.confirmTargetSas, .ok o) ∈ p.log
  confirmed : s₀.role = .source → p.session.state = .transferring →
    ∃ d o, (.confirmSas d, .ok o) ∈ p.log

theorem Created.sound {p : Played Key} (h : Created L p) : Sound p.session p := by
  cases h with
  | source now keys secret =>
    exact ⟨rfl, each_nil, by simp, by simp, nofun, by simp, by simp, nofun, nofun, nofun⟩
  | @target now qr keys d s e h =>
    simp only [Session.newTarget] at h
    split at h
    · cases h
    · split at h
      · cases h
      · cases h
        exact ⟨rfl, each_nil, by simp, by simp, fun _ => ⟨⟨_, rfl⟩, rfl, rfl⟩, by simp,
          by simp, fun _ h => by simp at h, fun _ h => by simp at h, fun _ h => by simp at h⟩

theorem Sound.orderly {s₀ : Session Key} {p : Played Key} (h : Sound s₀ p) {x : Entry}
    {s' : Session Key} (hturns : p.session.Turns L now x.1 s' x.2) : Orderly s₀ p.log x := by
  obtain ⟨c, r⟩ := x
  refine ⟨fun e he hmem => ?_, fun e he e₀ o hoffer => ?_, fun e he htarget => ?_,
    fun e o hx => ?_, fun d t pl o hx => ?_⟩
  · obtain ⟨e', he', heq⟩ := List.mem_map.1 hmem
    exact (hturns.accepted he).1 (heq ▸ h.processed e' he')
  · obtain ⟨hpeer, hstate⟩ := h.offered e₀ o hoffer
    rcases (hturns.accepted he).2.2 with ⟨-, hwaiting, -⟩ | ⟨-, hfrom⟩
    · exact absurd hwaiting hstate
    · exact hfrom _ hpeer
  · obtain ⟨⟨peer, hpeer⟩, hsame, -⟩ := h.scanned htarget
    rcases (hturns.accepted he).2.2 with ⟨-, -, hrole, -⟩ | ⟨-, hfrom⟩
    · rw [h.role, htarget] at hrole
      cases hrole
    · rw [hpeer, hfrom peer (hsame.trans hpeer)]
  · cases hx
    obtain ⟨hstate, -, hrole, -⟩ := hturns.payload rfl
    have htarget : s₀.role = .target := h.role.symm.trans (hrole ⟨e, rfl⟩)
    exact ⟨h.awaited htarget (.inr hstate), h.approved htarget hstate⟩
  · cases hx
    obtain ⟨hstate, -, -, hrole⟩ := hturns.payload rfl
    exact h.confirmed (h.role.symm.trans (hrole ⟨d, t, pl, rfl⟩)) hstate

theorem Sound.play {s₀ : Session Key} {p : Played Key} (h : Sound s₀ p) (x : Nat × Call) :
    Sound s₀ (play L p x) := by
  obtain ⟨elapsed, c⟩ := x
  have hturns := Session.call_turns L (p.clock + elapsed) p.session c
  rw [Pairing.play]
  dsimp only
  generalize hcall : p.session.call L (p.clock + elapsed) c = out at hturns ⊢
  obtain ⟨s', r⟩ := out
  dsimp only at hturns ⊢
  obtain ⟨hrole, -, -, -, -, -, hsas⟩ := hturns.frame
  have hmem {y : Entry} (hy : y ∈ p.log) : y ∈ p.log ++ [(c, r)] := List.mem_append_left _ hy
  have hlast : (c, r) ∈ p.log ++ [(c, r)] := by simp
  refine ⟨hrole.trans h.role, h.entries.concat (h.orderly hturns), ?_, ?_, ?_, ?_, ?_, ?_, ?_, ?_⟩
  · intro e he
    rw [List.filterMap_append, List.mem_append] at he
    rcases he with he | he
    · exact hturns.processed (h.processed e he)
    · have he' : accepts (c, r) = some e := by
        simp only [List.filterMap_cons, List.filterMap_nil] at he
        split at he
        · cases he
        · next heq => rw [heq, List.mem_singleton.1 he]
      exact (hturns.accepted he').2.1
  · intro e o hoffer
    rcases List.mem_append.1 hoffer with hoffer | hoffer
    · obtain ⟨hpeer, hstate⟩ := h.offered e o hoffer
      refine ⟨(hturns.peer.resolve_right fun hw => hstate hw.1).trans hpeer, fun hw => ?_⟩
      rcases hturns.forward with heq | ⟨-, hlt⟩
      · exact hstate (heq.symm.trans hw)
      · rw [hw] at hlt
        cases hlt
    · cases List.mem_singleton.1 hoffer
      rcases (hturns.accepted rfl).2.2 with ⟨-, -, -, hpeer, hstate⟩ | ⟨hne, -⟩
      · exact ⟨hpeer, by simp [hstate]⟩
      · exact absurd rfl (hne e)
  · intro htarget
    obtain ⟨hsome, hpeer, hcode⟩ := h.scanned htarget
    refine ⟨hsome, (hturns.peer.resolve_right fun hw => ?_).trans hpeer, hsas hcode⟩
    have := hw.2
    rw [h.role, htarget] at this
    cases this
  · rw [List.filter_append]
    cases hmoves : movesPayload (c, r) with
    | false => simpa [hmoves] using h.single
    | true =>
      obtain ⟨hstate, -, -, -⟩ := hturns.payload hmoves
      simp [hmoves, h.none (by rw [hstate]; decide)]
  · intro (hrank : s'.state.rank < 4)
    rw [List.filter_append]
    cases hmoves : movesPayload (c, r) with
    | false =>
      have hbefore : p.session.state.rank < 4 := by
        rcases hturns.forward with heq | ⟨-, hlt⟩
        · rwa [← heq]
        · omega
      simp [hmoves, h.none hbefore]
    | true =>
      obtain ⟨-, hstate, -⟩ := hturns.payload hmoves
      rw [hstate] at hrank
      exact absurd hrank (by decide)
  · intro htarget (hstate : s'.state = .awaitingConfirmation ∨ s'.state = .transferring)
    have hold (hstate : p.session.state = .awaitingConfirmation ∨ p.session.state = .transferring) :
        ∃ e o, (.handleSasConfirm e, .ok o) ∈ p.log ++ [(c, r)] := by
      obtain ⟨e, o, hentry⟩ := h.awaited htarget hstate
      exact ⟨e, o, hmem hentry⟩
    by_cases hsame : s'.state = p.session.state
    · exact hold (by rwa [← hsame])
    · obtain ⟨hawaiting, htransferring⟩ := hturns.confirm hsame
      rcases hstate with hstate | hstate
      · obtain ⟨-, hcode | ⟨e, o, rfl, rfl⟩⟩ := hawaiting hstate
        · have := (h.scanned htarget).2.2
          rw [hcode] at this
          cases this
        · exact ⟨e, o, hlast⟩
      · rcases htransferring hstate with ⟨hsource, -⟩ | ⟨-, hawaited, -⟩
        · rw [h.role, htarget] at hsource
          cases hsource
        · exact hold (.inl hawaited)
  · intro htarget (hstate : s'.state = .transferring)
    by_cases hsame : s'.state = p.session.state
    · obtain ⟨o, hentry⟩ := h.approved htarget (hsame ▸ hstate)
      exact ⟨o, hmem hentry⟩
    · rcases (hturns.confirm hsame).2 hstate with ⟨hsource, -⟩ | ⟨-, -, rfl, o, rfl⟩
      · rw [h.role, htarget] at hsource
        cases hsource
      · exact ⟨o, hlast⟩
  · intro hsource (hstate : s'.state = .transferring)
    by_cases hsame : s'.state = p.session.state
    · obtain ⟨d, o, hentry⟩ := h.confirmed hsource (hsame ▸ hstate)
      exact ⟨d, o, hmem hentry⟩
    · rcases (hturns.confirm hsame).2 hstate with ⟨-, d, o, rfl, rfl⟩ | ⟨htarget, -⟩
      · exact ⟨d, o, hlast⟩
      · rw [h.role, hsource] at htarget
        cases htarget

theorem sound_run {p : Played Key} (h : Created L p) (calls : List (Nat × Call)) :
    Sound p.session (runFrom (play L) p calls) := by
  induction calls using List.reverseRecOn with
  | nil => exact h.sound
  | append_singleton calls x ih =>
    rw [runFrom_append]
    exact ih.play x

theorem isExpired_play {p : Played Key} (h : p.session.isExpired p.clock = true) (x : Nat × Call) :
    p.session.isExpired (p.clock + x.1) = true ∧
      (play L p x).session.isExpired (play L p x).clock = true := by
  have hlater : p.session.isExpired (p.clock + x.1) = true := by
    simp only [Session.isExpired, decide_eq_true_eq] at h ⊢
    omega
  obtain ⟨-, -, hcreated, htimeout, -⟩ := (Session.call_turns L (p.clock + x.1) p.session x.2).frame
  refine ⟨hlater, ?_⟩
  rw [Session.isExpired] at hlater ⊢
  rw [play]
  dsimp only
  rwa [hcreated, htimeout]

theorem run_expired {p : Played Key} (h : p.session.isExpired p.clock = true)
    (calls : List (Nat × Call)) :
    (runFrom (play L) p calls).session.state = p.session.state ∨
      (runFrom (play L) p calls).session.state = .aborted := by
  induction calls generalizing p with
  | nil => exact .inl rfl
  | cons x calls ih =>
    obtain ⟨hnow, hlater⟩ := isExpired_play (L := L) h x
    rcases ih hlater with hrest | hrest
    · have hstep := (Session.call_turns L (p.clock + x.1) p.session x.2).expired hnow
      exact hstep.imp hrest.trans hrest.trans
    · exact .inr hrest

/-- In the life of a session: it moves forward and stays at its end; one payload at most is sent or
received; the peer stays once an offer is accepted, and what is accepted after it is the peer's and
new; payloads come after the confirmations; and after its time the session can only be aborted. -/
theorem run_session {p : Played Key} (h : Created L p) (calls : List (Nat × Call)) (x : Nat × Call) :
    let q := runFrom (play L) p calls
    let q' := play L q x
    (q'.session.state = q.session.state ∨ q.session.state.rank < q'.session.state.rank) ∧
    (q.session.state.terminal = true → q'.session.state = q.session.state) ∧
    (q.log.filter movesPayload).length ≤ 1 ∧
    (∀ e o, (.handleOffer e, .ok o) ∈ q.log → q.session.peerPubkey = some e.pubkey) ∧
    Each (Orderly p.session) q.log ∧
    (q.session.isExpired q.clock = true → ∀ more,
      (runFrom (play L) q more).session.state = q.session.state ∨
        (runFrom (play L) q more).session.state = .aborted) := by
  intro q q'
  have hsound : Sound p.session q := sound_run h calls
  have hturns := Session.call_turns L (q.clock + x.1) q.session x.2
  refine ⟨hturns.forward.imp_right And.right, fun hend => ?_, hsound.single,
    fun e o hoffer => (hsound.offered e o hoffer).1, hsound.entries, run_expired⟩
  refine hturns.forward.resolve_right fun hopen => ?_
  rw [hend] at hopen
  cases hopen.1

end Colony.Pairing
