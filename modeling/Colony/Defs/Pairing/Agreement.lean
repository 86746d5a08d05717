import Colony.Defs.Pairing.SessionLaws

/-! One source and any number of targets, with a network in the hands of an attacker who cannot
sign with their keys: a target that accepts a confirmation agrees with the source it has scanned. -/

namespace Colony.Pairing

open Colony.Core Colony.Data

variable {Key : Type} {L : Library Key} {s s' : Session Key} {now : Nat} {c : Call} {e : Event}

theorem bytes_inj {b b' : Bytes32} (h : bytes b = bytes b') : b = b' := by
  have hbyte : ∀ a < 256, ∀ b < 256, UInt8.ofNat a = UInt8.ofNat b → a = b := by
    intro a ha b hb heq
    have := congrArg UInt8.toNat heq
    rwa [UInt8.toNat_ofNat_of_lt' ha, UInt8.toNat_ofNat_of_lt' hb] at this
  have hdigits := digits_inj (by decide : 0 < 256) hbyte h
  have hb : b.toNat < 256 ^ 32 := b.isLt
  have hb' : b'.toNat < 256 ^ 32 := b'.isLt
  rw [Nat.mod_eq_of_lt hb, Nat.mod_eq_of_lt hb'] at hdigits
  exact BitVec.eq_of_toNat_eq hdigits

@[simp] theorem length_bytes (b : Bytes32) : (bytes b).length = 32 := by simp [bytes]

theorem transcript_inj {i i' x x' : Bytes32} {k k' p p' : PublicKey}
    (h : transcript i k p x = transcript i' k' p' x') : i = i' ∧ k = k' ∧ p = p' ∧ x = x' := by
  obtain ⟨h, hx⟩ := List.append_inj' h (by simp)
  obtain ⟨h, hp⟩ := List.append_inj' h (by simp)
  obtain ⟨hi, hk⟩ := List.append_inj' h (by simp)
  refine ⟨bytes_inj hi, ?_, ?_, bytes_inj hx⟩
  · cases k; cases k'; exact congrArg PublicKey.mk (bytes_inj hk)
  · cases p; cases p'; exact congrArg PublicKey.mk (bytes_inj hp)

/-- What the libraries promise: content decrypts to what was encrypted for the key, and a message
is read back from its JSON. -/
structure Library.Correct (L : Library Key) : Prop where
  decrypts : ∀ k k' text nonce content, L.encrypt k (L.publicKey k') text nonce = some content →
    L.decrypt k' (L.publicKey k) content = some text
  reads : ∀ m, L.fromJson (L.toJson m) = some m

structure System (Key : Type) where
  source : Played Key
  targets : Dict Nat (Played Key)
  sent : List Event

inductive Act (Key : Type)
  | source (elapsed : Nat) (c : Call)
  | newTarget (tid now : Nat) (qr : QrPayload) (keys : Key) (d : Draw)
  | target (tid elapsed : Nat) (c : Call)

def outputs : Except PairingError Output → List Event
  | .ok (.event e) => [e]
  | .ok (.aborted (some e)) => [e]
  | _ => []

def signs (L : Library Key) (p : Played Key) (elapsed : Nat) (c : Call) : List Event :=
  outputs (p.session.call L (p.clock + elapsed) c).2

def act (L : Library Key) (y : System Key) : Act Key → System Key
  | .source elapsed c =>
    { y with source := play L y.source (elapsed, c), sent := y.sent ++ signs L y.source elapsed c }
  | .newTarget tid now qr keys d =>
    match y.targets.lookup tid, Session.newTarget L now qr keys d with
    | none, .ok (s, e) =>
      { y with targets := y.targets.insert tid ⟨s, now, []⟩, sent := y.sent ++ [e] }
    | _, _ => y
  | .target tid elapsed c =>
    match y.targets.lookup tid with
    | none => y
    | some p =>
      { y with
        targets := y.targets.insert tid (play L p (elapsed, c))
        sent := y.sent ++ signs L p elapsed c }

def System.parties (y : System Key) : List (Played Key) := y.source :: y.targets.entries.map Sigma.snd

def Call.event : Call → Option Event
  | .handleOffer e | .handleReturnPayload e | .handleComplete e | .handleSasConfirm e
  | .handlePayload e | .handleAbort e => some e
  | _ => none

def Act.call : Act Key → Option Call
  | .source _ c | .target _ _ c => some c
  | .newTarget _ _ _ _ _ => none

/-- The attacker delivers what it likes, but for events under an honest key that were not signed
with it; and the honest parties sign what else they sign as events of other kinds. -/
def Unforged (L : Library Key) (y : System Key) (a : Act Key) : Prop :=
  ∀ c, a.call = some c →
    (∀ e, c.event = some e → L.verify e = true →
      (∃ p ∈ y.parties, L.publicKey p.session.keys = e.pubkey) → e ∈ y.sent) ∧
    ∀ d kind tags content, c = .signEvent d kind tags content → kind ≠ pairingKind

def System.start (L : Library Key) (now : Nat) (keys : Key) (secret : Bytes32) : System Key :=
  ⟨⟨(Session.newSource L now keys secret).1, now, []⟩, ∅, []⟩

def Session.hashed (L : Library Key) (s : Session Key) : Option (Bytes × Bytes) :=
  match s.sasInput, s.peerPubkey, s.role with
  | some x, some peer, .source =>
    some (bytes s.sessionSecret, transcript s.sessionId (L.publicKey s.keys) peer x)
  | some x, some peer, .target =>
    some (bytes s.sessionSecret, transcript s.sessionId peer (L.publicKey s.keys) x)
  | _, _, _ => none

theorem Session.hashed_eq_some {a : Bytes × Bytes} (h : s.hashed L = some a) :
    ∃ x peer, s.sasInput = some x ∧ s.peerPubkey = some peer ∧ a.1 = bytes s.sessionSecret ∧
      (s.role = .source → a.2 = transcript s.sessionId (L.publicKey s.keys) peer x) ∧
      (s.role = .target → a.2 = transcript s.sessionId peer (L.publicKey s.keys) x) := by
  unfold Session.hashed at h
  split at h
  · next x peer hx hpeer hrole =>
    cases h
    exact ⟨x, peer, hx, hpeer, rfl, fun _ => rfl, fun h => absurd (hrole.symm.trans h) (by simp)⟩
  · next x peer hx hpeer hrole =>
    cases h
    exact ⟨x, peer, hx, hpeer, rfl, fun h => absurd (hrole.symm.trans h) (by simp), fun _ => rfl⟩
  · cases h

def System.CollisionFree (L : Library Key) (y : System Key) : Prop :=
  ∀ p ∈ y.parties, ∀ q ∈ y.parties, ∀ a b, p.session.hashed L = some a → q.session.hashed L = some b →
    L.hkdf32 a.1 a.2 infoTranscript = L.hkdf32 b.1 b.2 infoTranscript → a = b

theorem Session.transcriptHash_eq {hash : Bytes32} (h : s.transcriptHash L = .ok hash) :
    ∃ a, s.hashed L = some a ∧ L.hkdf32 a.1 a.2 infoTranscript = hash := by
  unfold Session.transcriptHash at h
  unfold Session.hashed
  split at h
  · cases h
  · next x hx =>
    split at h
    · cases h
    · next peer hpeer =>
      rw [hx, hpeer]
      dsimp only at h
      split at h <;> cases h
      · next hrole =>
        rw [hrole]
        exact ⟨_, rfl, rfl⟩
      · next hrole =>
        rw [hrole]
        exact ⟨_, rfl, rfl⟩

structure Built (L : Library Key) (keys : Key) (peer : PublicKey) (m : PairingMessage) (e : Event) :
    Prop where
  pubkey : e.pubkey = L.publicKey keys
  tags : e.tags = [⟨"p", [L.hex.encode peer.bits]⟩]
  content : ∃ nonce, L.encrypt keys peer (L.toJson m) nonce = some e.content

theorem Session.buildEvent_eq_ok {d : Draw} {m : PairingMessage} (h : s.buildEvent L d m = .ok e) :
    ∃ peer, s.peerPubkey = some peer ∧ Built L s.keys peer m e := by
  unfold Session.buildEvent at h
  split at h
  · cases h
  · next peer hpeer =>
    split at h
    · cases h
    · next content hcontent =>
      unfold Session.sign at h
      dsimp only at h
      split at h
      · cases h
        exact ⟨peer, hpeer, rfl, rfl, d.nonce, hcontent⟩
      · cases h

theorem Session.Turns.outputs {r : Except PairingError Output} (h : s.Turns L now c s' r)
    (he : e ∈ outputs r) (hkind : e.kind = pairingKind)
    (hsign : ∀ d kind tags content, c = .signEvent d kind tags content → kind ≠ pairingKind) :
    ∃ peer m, s.peerPubkey = some peer ∧ Built L s.keys peer m e ∧
      ∀ text, m = .sasConfirm text → (∃ d, c = .confirmSas d) ∧ s.role = .source ∧
        s.state = .confirming ∧ (∃ o, r = .ok o) ∧
        ∃ hash, s.transcriptHash L = .ok hash ∧ text = L.hex.encode hash := by
  have hplain {d : Draw} {m : PairingMessage} (hbuilt : s.buildEvent L d m = .ok e)
      (hm : ∀ text, m ≠ .sasConfirm text) : ∃ peer m, s.peerPubkey = some peer ∧
        Built L s.keys peer m e ∧ ∀ text, m = .sasConfirm text → (∃ d, c = .confirmSas d) ∧
          s.role = .source ∧ s.state = .confirming ∧ (∃ o, r = .ok o) ∧
          ∃ hash, s.transcriptHash L = .ok hash ∧ text = L.hex.encode hash := by
    obtain ⟨peer, hpeer, hb⟩ := Session.buildEvent_eq_ok hbuilt
    exact ⟨peer, m, hpeer, hb, fun text heq => absurd heq (hm text)⟩
  cases h with
  | signed hsigned =>
    cases List.mem_singleton.1 he
    unfold Session.sign at hsigned
    dsimp only at hsigned
    split at hsigned
    · cases hsigned
      exact absurd hkind (hsign _ _ _ _ rfl)
    · cases hsigned
  | sasConfirmed hturn hhash hbuilt =>
    cases List.mem_singleton.1 he
    obtain ⟨peer, hpeer, hb⟩ := Session.buildEvent_eq_ok hbuilt
    obtain ⟨-, hstate, hrole⟩ := turn_eq_ok.1 hturn
    refine ⟨peer, _, hpeer, hb, fun text heq => ?_⟩
    cases heq
    exact ⟨⟨_, rfl⟩, hrole, hstate, ⟨_, rfl⟩, _, hhash, rfl⟩
  | sourceCompleted _ hbuilt | sent _ hbuilt | targetCompleted _ hbuilt =>
    cases List.mem_singleton.1 he
    exact hplain hbuilt (by simp)
  | aborted _ hbuilt =>
    cases List.mem_singleton.1 he
    exact hplain hbuilt (by simp)
  | _ => cases he

theorem Session.Turns.confirming {d : Draw} {o : Output} (h : s.Turns L now (.confirmSas d) s' (.ok o)) :
    s.state = .confirming := by
  cases h with
  | sasConfirmed hturn => exact (turn_eq_ok.1 hturn).2.1

theorem Session.Turns.settled {r : Except PairingError Output} (h : s.Turns L now c s' r)
    (hstate : s.state ≠ .waiting) :
    s'.peerPubkey = s.peerPubkey ∧ s'.sasInput = s.sasInput ∧ s'.sasCode = s.sasCode := by
  cases h with
  | unshared hoffered | offer hoffered =>
    exact absurd (turn_eq_ok.1 (offered_eq_ok hoffered).1).2.1 hstate
  | _ => exact ⟨rfl, rfl, rfl⟩

theorem Session.Turns.sasCode_eq {r : Except PairingError Output} (h : s.Turns L now c s' r)
    (hcode : s.sasCode = s.sasInput.map sasCodeOf) : s'.sasCode = s'.sasInput.map sasCodeOf := by
  cases h <;> first | exact hcode | rfl

theorem Session.transcriptHash_congr (hrole : s'.role = s.role) (hkeys : s'.keys = s.keys)
    (hsecret : s'.sessionSecret = s.sessionSecret) (hid : s'.sessionId = s.sessionId)
    (hpeer : s'.peerPubkey = s.peerPubkey) (hinput : s'.sasInput = s.sasInput) :
    s'.transcriptHash L = s.transcriptHash L := by
  simp only [Session.transcriptHash, hrole, hkeys, hsecret, hid, hpeer, hinput]

theorem System.mem_parties {y : System Key} {p : Played Key} :
    p ∈ y.parties ↔ p = y.source ∨ ∃ tid, y.targets.lookup tid = some p := by
  simp only [System.parties, List.mem_cons, List.mem_map, Dict.mem_lookup_entries]
  refine or_congr_right ⟨?_, fun ⟨tid, h⟩ => ⟨⟨tid, p⟩, h, rfl⟩⟩
  rintro ⟨x, hx, rfl⟩
  exact ⟨x.1, hx⟩

def System.Confirmed (L : Library Key) (y : System Key) (peer : PublicKey) (text : String) : Prop :=
  (∃ d o, (.confirmSas d, .ok o) ∈ y.source.log) ∧ y.source.session.peerPubkey = some peer ∧
    ∃ hash, y.source.session.transcriptHash L = .ok hash ∧ text = L.hex.encode hash

structure System.Honest (L : Library Key) (y : System Key) : Prop where
  source : y.source.session.role = .source
  targets : ∀ tid p, y.targets.lookup tid = some p → p.session.role = .target
  codes : ∀ p ∈ y.parties, p.session.sasCode = p.session.sasInput.map sasCodeOf
  settled : ∀ d o, (.confirmSas d, .ok o) ∈ y.source.log → y.source.session.state ≠ .waiting
  sent : ∀ e ∈ y.sent, e.kind = pairingKind → ∃ keys peer m, Built L keys peer m e ∧
    ∀ text, m = .sasConfirm text → y.Confirmed L peer text

theorem System.honest_start (now : Nat) (keys : Key) (secret : Bytes32) :
    (System.start L now keys secret).Honest L := by
  refine ⟨rfl, fun _ _ h => (nomatch h), fun p hp => ?_, fun _ _ h => (nomatch h), fun _ h => nomatch h⟩
  rcases System.mem_parties.1 hp with rfl | ⟨tid, htid⟩
  · rfl
  · cases htid

theorem System.Honest.actSource {y : System Key} (h : y.Honest L) {elapsed : Nat}
    (hsign : ∀ d kind tags content, c = .signEvent d kind tags content → kind ≠ pairingKind) :
    (act L y (.source elapsed c)).Honest L := by
  have hturns := Session.call_turns L (y.source.clock + elapsed) y.source.session c
  obtain ⟨hrole, hkeys, -, -, hsecret, hid, -⟩ := hturns.frame
  have hlog : (play L y.source (elapsed, c)).log = y.source.log ++
      [(c, (y.source.session.call L (y.source.clock + elapsed) c).2)] := rfl
  have hstate (hbefore : y.source.session.state ≠ .waiting) :
      (play L y.source (elapsed, c)).session.state ≠ .waiting := by
    intro hw
    rcases hturns.forward with heq | ⟨-, hlt⟩
    · exact hbefore (heq.symm.trans hw)
    · rw [show (y.source.session.call L (y.source.clock + elapsed) c).1.state = .waiting from hw] at hlt
      cases hlt
  -- what the source has said stays true of it
  have hkeep {peer : PublicKey} {hash : Bytes32} (hbefore : y.source.session.state ≠ .waiting)
      (hpeer : y.source.session.peerPubkey = some peer)
      (hhash : y.source.session.transcriptHash L = .ok hash) :
      (play L y.source (elapsed, c)).session.peerPubkey = some peer ∧
        (play L y.source (elapsed, c)).session.transcriptHash L = .ok hash := by
    obtain ⟨hpeer', hinput, -⟩ := hturns.settled hbefore
    exact ⟨hpeer'.trans hpeer,
      (Session.transcriptHash_congr hrole hkeys hsecret hid hpeer' hinput).trans hhash⟩
  refine ⟨hrole.trans h.source, h.targets, fun p hp => ?_, fun d o hmem => ?_, fun e he hkind => ?_⟩
  · rcases System.mem_parties.1 hp with rfl | htarget
    · exact hturns.sasCode_eq (h.codes _ (System.mem_parties.2 (.inl rfl)))
    · exact h.codes p (System.mem_parties.2 (.inr htarget))
  · refine hstate ?_
    rcases List.mem_append.1 (hlog ▸ hmem) with hmem | hmem
    · exact h.settled d o hmem
    · obtain ⟨rfl, hr⟩ := Prod.mk.inj (List.mem_singleton.1 hmem)
      rw [← hr] at hturns
      simp [hturns.confirming]
  · rcases List.mem_append.1 he with he | he
    · obtain ⟨keys, peer, m, hb, hconfirmed⟩ := h.sent e he hkind
      refine ⟨keys, peer, m, hb, fun text htext => ?_⟩
      obtain ⟨⟨d, o, hmem⟩, hpeer, hash, hhash, heq⟩ := hconfirmed text htext
      obtain ⟨hpeer', hhash'⟩ := hkeep (h.settled d o hmem) hpeer hhash
      exact ⟨⟨d, o, List.mem_append_left _ hmem⟩, hpeer', hash, hhash', heq⟩
    · obtain ⟨peer, m, hpeer, hb, hconfirms⟩ := hturns.outputs he hkind hsign
      refine ⟨_, peer, m, hb, fun text htext => ?_⟩
      obtain ⟨⟨d, rfl⟩, -, hconfirming, ⟨o, hr⟩, hash, hhash, heq⟩ := hconfirms text htext
      obtain ⟨hpeer', hhash'⟩ := hkeep (by simp [hconfirming]) hpeer hhash
      refine ⟨⟨d, o, ?_⟩, hpeer', hash, hhash', heq⟩
      show _ ∈ (play L y.source (elapsed, .confirmSas d)).log
      rw [hlog, hr]
      simp

theorem System.Honest.actTarget {y : System Key} (h : y.Honest L) {tid elapsed : Nat}
    (hsign : ∀ d kind tags content, c = .signEvent d kind tags content → kind ≠ pairingKind) :
    (act L y (.target tid elapsed c)).Honest L := by
  simp only [act]
  split
  · exact h
  · next q hq =>
    have hturns := Session.call_turns L (q.clock + elapsed) q.session c
    have hrole := hturns.frame.1
    have hcases {tid' : Nat} {p : Played Key}
        (hp : (y.targets.insert tid (play L q (elapsed, c))).lookup tid' = some p) :
        p = play L q (elapsed, c) ∨ y.targets.lookup tid' = some p := by
      rw [Dict.lookup_insert_if] at hp
      split at hp
      · exact .inl (Option.some.inj hp).symm
      · exact .inr hp
    refine ⟨h.source, fun tid' p hp => ?_, fun p hp => ?_, h.settled, fun e he hkind => ?_⟩
    · rcases hcases hp with rfl | hp
      · exact hrole.trans (h.targets tid q hq)
      · exact h.targets tid' p hp
    · rcases System.mem_parties.1 hp with rfl | ⟨tid', hp⟩
      · exact h.codes _ (System.mem_parties.2 (.inl rfl))
      · rcases hcases hp with rfl | hp
        · exact hturns.sasCode_eq (h.codes q (System.mem_parties.2 (.inr ⟨tid, hq⟩)))
        · exact h.codes p (System.mem_parties.2 (.inr ⟨tid', hp⟩))
    · rcases List.mem_append.1 he with he | he
      · exact h.sent e he hkind
      · obtain ⟨peer, m, -, hb, hconfirms⟩ := hturns.outputs he hkind hsign
        refine ⟨_, peer, m, hb, fun text htext => ?_⟩
        have hsource := (hconfirms text htext).2.1
        rw [h.targets tid q hq] at hsource
        cases hsource

theorem System.Honest.actNew {y : System Key} (h : y.Honest L) {tid now : Nat} {qr : QrPayload}
    {keys : Key} {d : Draw} : (act L y (.newTarget tid now qr keys d)).Honest L := by
  simp only [act]
  split
  · next s e hfree hnew =>
    have hcreated : s.role = .target ∧ s.sasCode = s.sasInput.map sasCodeOf ∧
        ∃ keys peer id, Built L keys peer (.offer id 1) e := by
      simp only [Session.newTarget] at hnew
      split at hnew
      · cases hnew
      · split at hnew
        · cases hnew
        · next hbuilt =>
          cases hnew
          obtain ⟨peer, -, hb⟩ := Session.buildEvent_eq_ok hbuilt
          exact ⟨rfl, rfl, _, peer, _, hb⟩
    have hcases {tid' : Nat} {p : Played Key}
        (hp : (y.targets.insert tid ⟨s, now, []⟩).lookup tid' = some p) :
        p = ⟨s, now, []⟩ ∨ y.targets.lookup tid' = some p := by
      rw [Dict.lookup_insert_if] at hp
      split at hp
      · exact .inl (Option.some.inj hp).symm
      · exact .inr hp
    refine ⟨h.source, fun tid' p hp => ?_, fun p hp => ?_, h.settled, fun e' he hkind => ?_⟩
    · rcases hcases hp with rfl | hp
      · exact hcreated.1
      · exact h.targets tid' p hp
    · rcases System.mem_parties.1 hp with rfl | ⟨tid', hp⟩
      · exact h.codes _ (System.mem_parties.2 (.inl rfl))
      · rcases hcases hp with rfl | hp
        · exact hcreated.2.1
        · exact h.codes p (System.mem_parties.2 (.inr ⟨tid', hp⟩))
    · rcases List.mem_append.1 he with he | he
      · exact h.sent e' he hkind
      · cases List.mem_singleton.1 he
        obtain ⟨keys, peer, id, hb⟩ := hcreated.2.2
        exact ⟨keys, peer, _, hb, fun _ htext => by cases htext⟩
  · exact h

theorem System.Honest.act {y : System Key} (h : y.Honest L) {a : Act Key} (ha : Unforged L y a) :
    (act L y a).Honest L := by
  cases a with
  | source elapsed c => exact h.actSource (ha c rfl).2
  | newTarget tid now qr keys d => exact h.actNew
  | target tid elapsed c => exact h.actTarget (ha c rfl).2

theorem System.Honest.confirmed {y : System Key} (hL : L.Correct) (h : y.Honest L)
    (hkind : e.kind = pairingKind) (he : e ∈ y.sent) (htag : s.hasPTag L e = true) {text : String}
    (hmessage : s.decryptMessage L e = .ok (.sasConfirm text)) :
    y.Confirmed L (L.publicKey s.keys) text := by
  obtain ⟨keys, peer, m, hb, hconfirmed⟩ := h.sent e he hkind
  obtain ⟨nonce, hcontent⟩ := hb.content
  have hpeer : peer = L.publicKey s.keys := by
    simp only [Session.hasPTag, hb.tags, List.any_cons, List.any_nil, Bool.or_false, List.head?_cons,
      decide_eq_true_eq, Option.some.injEq] at htag
    have := L.hex.encode_inj htag.2
    cases peer
    exact congrArg PublicKey.mk this
  subst hpeer
  have hm : m = .sasConfirm text := by
    have hopens := hL.decrypts _ _ _ _ _ hcontent
    rw [← hb.pubkey] at hopens
    unfold Session.decryptMessage at hmessage
    dsimp only at hmessage
    split at hmessage
    · cases hmessage
    · rw [hopens] at hmessage
      dsimp only at hmessage
      split at hmessage
      · cases hmessage
      · rw [hL.reads] at hmessage
        exact Except.ok.inj hmessage
  exact hconfirmed text hm

/-- In every run of one source and any targets: when a target that has scanned the source's key
accepts a confirmation, the source has confirmed, to that target, and both have the same session id
and show the same code. -/
theorem run_agreement (hL : L.Correct) (now : Nat) (keys : Key) (secret : Bytes32)
    (acts : List (Act Key)) (hacts : Along (act L) (Unforged L) (System.start L now keys secret) acts)
    (tid elapsed : Nat) (e : Event) (q : Played Key) (o : Output) :
    let y := runFrom (act L) (System.start L now keys secret) acts
    Unforged L y (.target tid elapsed (.handleSasConfirm e)) → y.CollisionFree L →
    y.targets.lookup tid = some q →
    q.session.peerPubkey = some (L.publicKey y.source.session.keys) →
    (q.session.call L (q.clock + elapsed) (.handleSasConfirm e)).2 = .ok o →
      (∃ d o', (.confirmSas d, .ok o') ∈ y.source.log) ∧
      y.source.session.peerPubkey = some (L.publicKey q.session.keys) ∧
      y.source.session.sessionId = q.session.sessionId ∧
      ∃ code, y.source.session.sasCode = some code ∧ q.session.sasCode = some code := by
  intro y hunforged hcollision hq hscanned hok
  have hhonest : y.Honest L :=
    hacts.preserves (fun _ _ h ha => h.act ha) (System.honest_start now keys secret)
  have hturns := Session.call_turns L (q.clock + elapsed) q.session (.handleSasConfirm e)
  rw [hok] at hturns
  have hmemq : q ∈ y.parties := System.mem_parties.2 (.inr ⟨tid, hq⟩)
  have hmems : y.source ∈ y.parties := System.mem_parties.2 (.inl rfl)
  generalize (q.session.call L (q.clock + elapsed) (.handleSasConfirm e)).1 = s' at hturns
  cases hturns with
  | @awaiting _ received hash code hopened hhash hreceived =>
    obtain ⟨-, hvalid, hmessage⟩ := Session.opened_eq_ok.1 hopened
    obtain ⟨hbasics, hfrom⟩ := Session.validateEventFromPeer_eq_ok.1 hvalid
    obtain ⟨hverify, -, hkind, htag⟩ := Session.validateEventBasics_eq_ok.1 hbasics
    have he : e ∈ y.sent :=
      (hunforged _ rfl).1 e rfl hverify ⟨y.source, hmems, (hfrom _ hscanned).symm⟩
    obtain ⟨hlog, hpeer, hash', hhash', rfl⟩ := hhonest.confirmed hL hkind he htag hmessage
    rw [L.hex.decode_encode] at hreceived
    cases hreceived
    -- the same hash, hence the same transcript
    obtain ⟨a, ha, haeq⟩ := Session.transcriptHash_eq hhash
    obtain ⟨b, hb, hbeq⟩ := Session.transcriptHash_eq hhash'
    obtain rfl := hcollision q hmemq y.source hmems a b ha hb (haeq.trans hbeq.symm)
    obtain ⟨x, peer, hx, -, -, -, htarget⟩ := Session.hashed_eq_some ha
    obtain ⟨x', peer', hx', -, -, hsource, -⟩ := Session.hashed_eq_some hb
    have htranscript := (htarget (hhonest.targets tid q hq)).symm.trans (hsource hhonest.source)
    obtain ⟨hid, -, -, rfl⟩ := transcript_inj htranscript
    refine ⟨hlog, hpeer, hid.symm, sasCodeOf x, ?_, ?_⟩
    · rw [hhonest.codes _ hmems, hx']
      rfl
    · rw [hhonest.codes q hmemq, hx]
      rfl

def sampleToJson : PairingMessage → List Char
  | .offer sessionId version => 'o' :: (List.replicate version '1' ++ '.' :: sessionId.toList)
  | .sasConfirm transcriptHash => 's' :: transcriptHash.toList
  | .payload .nsec payload => 'n' :: payload.toList
  | .payload .bunker payload => 'b' :: payload.toList
  | .payload .connect payload => 'c' :: payload.toList
  | .payload .custom payload => 'u' :: payload.toList
  | .complete true => ['y']
  | .complete false => ['z']
  | .abort .sasMismatch => ['0']
  | .abort .userDenied => ['1']
  | .abort .timeout => ['2']
  | .abort .protocolError => ['3']
  | .abort .unknown => ['4']

def sampleFromJson : List Char → Option PairingMessage
  | 'o' :: rest =>
    let version := (rest.takeWhile (· = '1')).length
    some (.offer (String.ofList (rest.drop (version + 1))) version)
  | 's' :: rest => some (.sasConfirm (String.ofList rest))
  | 'n' :: rest => some (.payload .nsec (String.ofList rest))
  | 'b' :: rest => some (.payload .bunker (String.ofList rest))
  | 'c' :: rest => some (.payload .connect (String.ofList rest))
  | 'u' :: rest => some (.payload .custom (String.ofList rest))
  | ['y'] => some (.complete true)
  | ['z'] => some (.complete false)
  | ['0'] => some (.abort .sasMismatch)
  | ['1'] => some (.abort .userDenied)
  | ['2'] => some (.abort .timeout)
  | ['3'] => some (.abort .protocolError)
  | ['4'] => some (.abort .unknown)
  | _ => none

def sampleLibrary : Library Nat where
  hex := lowerHex
  publicKey k := ⟨BitVec.ofNat 256 k⟩
  sharedKey k p := some (BitVec.ofNat 256 (k * p.bits.toNat))
  hkdf32 salt ikm info := BitVec.ofNat 256 ((salt ++ ikm).foldl (fun n b => n * 257 + b.toNat + 1) info.length)
  encrypt _ _ text _ := some (String.ofList (List.replicate 132 'x' ++ text.toList))
  decrypt _ _ content := some (String.ofList (content.toList.drop 132))
  verify _ := true
  eventId _ createdAt _ _ _ := ⟨BitVec.ofNat 256 createdAt⟩
  toJson m := String.ofList (sampleToJson m)
  fromJson text := sampleFromJson text.toList

theorem sampleFromJson_sampleToJson (m : PairingMessage) : sampleFromJson (sampleToJson m) = some m := by
  cases m with
  | offer sessionId version =>
    have hversion : ((List.replicate version '1' ++ '.' :: sessionId.toList).takeWhile
        (· = '1')).length = version := by
      rw [List.takeWhile_append_of_pos (by simp)]
      simp
    rw [sampleToJson, sampleFromJson, hversion, List.drop_append, List.length_replicate, Nat.add_sub_cancel_left]
    simp
  | payload payloadType payload => cases payloadType <;> simp [sampleToJson, sampleFromJson]
  | complete success => cases success <;> rfl
  | abort reason => cases reason <;> rfl
  | sasConfirm text => simp [sampleToJson, sampleFromJson]

theorem sampleLibrary_correct : sampleLibrary.Correct := by
  refine ⟨fun k k' text nonce content h => ?_, fun m => ?_⟩
  · cases h
    simp [sampleLibrary]
  · simp [sampleLibrary, sampleFromJson_sampleToJson]

def sampleEvent (key peer : BitVec 256) (createdAt : Nat) (m : PairingMessage) : Event where
  id := ⟨BitVec.ofNat 256 createdAt⟩
  pubkey := ⟨key⟩
  createdAt
  kind := pairingKind
  tags := [⟨"p", [lowerHex.encode peer]⟩]
  content := String.ofList (List.replicate 132 'x' ++ sampleToJson m)

def sampleOffer : Event :=
  sampleEvent 2 1 10 (.offer (lowerHex.encode (deriveSessionId sampleLibrary 5)) 1)

def sampleConfirm : Event :=
  sampleEvent 1 2 20 (.sasConfirm (lowerHex.encode (deriveTranscriptHash sampleLibrary
    (deriveSessionId sampleLibrary 5) ⟨1⟩ ⟨2⟩ (deriveSas sampleLibrary 2 5).2 5)))

def sampleActs : List (Act Nat) :=
  [.newTarget 0 0 ⟨⟨1⟩, 5⟩ 2 ⟨10, 0, true⟩, .source 1 (.handleOffer sampleOffer),
    .source 1 (.confirmSas ⟨20, 0, true⟩)]

def sampleRun : System Nat := runFrom (act sampleLibrary) (System.start sampleLibrary 0 1 5) sampleActs

theorem sampleActs_unforged :
    Along (act sampleLibrary) (Unforged sampleLibrary) (System.start sampleLibrary 0 1 5) sampleActs := by
  refine ⟨fun c hc => (nomatch hc), fun c hc => ?_, fun c hc => ?_, trivial⟩
  · cases hc
    refine ⟨fun e he _ _ => ?_, nofun⟩
    cases he
    decide +kernel
  · cases hc
    exact ⟨nofun, nofun⟩

theorem sampleRun_accepts :
    sampleRun.parties.map (fun p => p.session.hashed sampleLibrary) =
      List.replicate 2 (sampleRun.source.session.hashed sampleLibrary) ∧
    sampleConfirm ∈ sampleRun.sent ∧ sampleRun.source.session.keys = 1 ∧
    (sampleRun.targets.lookup 0).map (fun q => (q.session.peerPubkey,
      (q.session.call sampleLibrary (q.clock + 3) (.handleSasConfirm sampleConfirm)).2)) =
        some (some ⟨1⟩, .ok (.sas "730172")) := by
  decide +kernel

theorem run_agreement_sample :
    ∃ q code, sampleRun.targets.lookup 0 = some q ∧ q.session.sasCode = some code ∧
      sampleRun.source.session.sasCode = some code := by
  obtain ⟨hhashed, hsent, hkeys, hlookup⟩ := sampleRun_accepts
  obtain ⟨q, hq, heq⟩ := Option.map_eq_some_iff.1 hlookup
  obtain ⟨hpeer, hok⟩ := Prod.mk.inj heq
  have hsame (p : Played Nat) (hp : p ∈ sampleRun.parties) :
      p.session.hashed sampleLibrary = sampleRun.source.session.hashed sampleLibrary := by
    have hmem : p.session.hashed sampleLibrary ∈
        sampleRun.parties.map (fun p => p.session.hashed sampleLibrary) := List.mem_map.2 ⟨p, hp, rfl⟩
    rw [hhashed] at hmem
    exact List.eq_of_mem_replicate hmem
  have hunforged : Unforged sampleLibrary sampleRun (.target 0 3 (.handleSasConfirm sampleConfirm)) := by
    intro c hc
    cases hc
    refine ⟨fun e he _ _ => ?_, nofun⟩
    cases he
    exact hsent
  obtain ⟨-, -, -, code, hsource, htarget⟩ := run_agreement sampleLibrary_correct 0 1 5 sampleActs
    sampleActs_unforged 0 3 sampleConfirm q _ hunforged
    (fun p hp p' hp' a b ha hb _ =>
      Option.some.inj ((ha.symm.trans (hsame p hp)).trans ((hsame p' hp').symm.trans hb)))
    hq (by rw [hpeer]; exact congrArg (fun k => some (sampleLibrary.publicKey k)) hkeys.symm) hok
  exact ⟨q, code, hq, htarget, hsource⟩

def sampleCompletion : Event := sampleEvent 2 1 30 (.complete true)

-- The source takes the offer, confirms, sends its payload and hears that it has arrived.
def sampleLife : List (Nat × Call) :=
  [(1, .handleOffer sampleOffer), (1, .confirmSas ⟨20, 0, true⟩),
    (1, .sendPayload ⟨25, 1, true⟩ .nsec "secret"), (1, .handleComplete sampleCompletion)]

def sampleBegun : Played Nat := ⟨(Session.newSource sampleLibrary 0 1 5).1, 0, []⟩

def sampleLived : Played Nat := runFrom (play sampleLibrary) sampleBegun sampleLife

theorem sampleLived_spec : sampleLived.session.state = .completed ∧
    (sampleLived.log.filter movesPayload).length = 1 ∧
    sampleLived.log.head? = some (.handleOffer sampleOffer, .ok (.sas "730172")) := by
  decide +kernel

theorem run_session_sample :
    sampleLived.session.state = .completed ∧ (sampleLived.log.filter movesPayload).length = 1 ∧
      sampleLived.session.peerPubkey = some sampleOffer.pubkey ∧
      (play sampleLibrary sampleLived (1, .sendPayload ⟨40, 2, true⟩ .nsec "secret")).session.state =
        .completed := by
  obtain ⟨hcompleted, hmoved, hlog⟩ := sampleLived_spec
  have hcreated : Created sampleLibrary sampleBegun := .source 0 1 5
  have hrun := run_session hcreated sampleLife (1, .sendPayload ⟨40, 2, true⟩ .nsec "secret")
  rw [sampleLived] at hcompleted hmoved hlog ⊢
  generalize runFrom (play sampleLibrary) sampleBegun sampleLife = q at hcompleted hmoved hlog hrun ⊢
  obtain ⟨-, hend, -, hpeer, -⟩ := hrun
  refine ⟨hcompleted, hmoved, hpeer sampleOffer _ (List.mem_of_head? hlog), (hend ?_).trans hcompleted⟩
  rw [hcompleted]
  rfl

end Colony.Pairing
