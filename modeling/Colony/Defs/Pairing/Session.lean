import Colony.Defs.Core.Uuid
import Mathlib.Data.List.Basic
import Mathlib.Tactic.Ring

namespace Colony.Pairing

open Colony.Core

abbrev Bytes := List UInt8

abbrev Bytes32 := BitVec 256

def bytes (b : Bytes32) : Bytes := (List.range 32).reverse.map fun i => UInt8.ofNat (b.toNat / 256 ^ i % 256)

/-- The hexadecimal text of 32 bytes. -/
structure Hex where
  encode : Bytes32 → String
  decode : String → Option Bytes32
  decode_encode : ∀ b, decode (encode b) = some b
  encode_length : ∀ b, (encode b).toList.length = 64
  encode_lower : ∀ b, ∀ c ∈ (encode b).toList, c.isDigit = true ∨ 'a' ≤ c ∧ c ≤ 'f'

theorem Hex.encode_inj (hex : Hex) {b b' : Bytes32} (h : hex.encode b = hex.encode b') : b = b' := by
  have hdecoded := congrArg hex.decode h
  rwa [hex.decode_encode, hex.decode_encode, Option.some.injEq] at hdecoded

inductive PayloadType
  | nsec
  | bunker
  | connect
  | custom
  deriving DecidableEq

inductive AbortReason
  | sasMismatch
  | userDenied
  | timeout
  | protocolError
  | unknown
  deriving DecidableEq

inductive PairingMessage
  | offer (sessionId : String) (version : Nat)
  | sasConfirm (transcriptHash : String)
  | payload (payloadType : PayloadType) (payload : String)
  | complete (success : Bool)
  | abort (reason : AbortReason)
  deriving DecidableEq

def PairingMessage.label : PairingMessage → String
  | .offer _ _ => "offer"
  | .sasConfirm _ => "sas-confirm"
  | .payload _ _ => "payload"
  | .complete _ => "complete"
  | .abort _ => "abort"

inductive PairingError
  | invalidSessionId
  | sasMismatch
  | transcriptMismatch
  | unexpectedMessage (expected got : String)
  | sessionExpired
  | nip44
  | json
  | invalidPubkey (text : String)
  | signingError
  deriving DecidableEq

/-- What the session takes from its libraries: keys, key agreement and derivation, encryption of
content, the check of an event's id and signature, the id of an event and the JSON of a message. -/
structure Library (Key : Type) where
  hex : Hex
  publicKey : Key → PublicKey
  sharedKey : Key → PublicKey → Option Bytes32
  hkdf32 : (salt ikm : Bytes) → (info : String) → Bytes32
  encrypt : Key → PublicKey → String → (nonce : Nat) → Option String
  decrypt : Key → PublicKey → String → Option String
  verify : Event → Bool
  eventId : PublicKey → Nat → Kind → List Tag → String → EventId
  toJson : PairingMessage → String
  fromJson : String → Option PairingMessage

variable {Key : Type} (L : Library Key)

def infoSessionId : String := "nostr-pair-session-id"

def infoSas : String := "nostr-pair-sas-v1"

def infoTranscript : String := "nostr-pair-transcript-v1"

def deriveSessionId (sessionSecret : Bytes32) : Bytes32 :=
  L.hkdf32 [] (bytes sessionSecret) infoSessionId

def sasCodeOf (sasInput : Bytes32) : Nat := sasInput.toNat / 2 ^ 224 % 1000000

def deriveSas (ecdhShared sessionSecret : Bytes32) : Nat × Bytes32 :=
  let sasInput := L.hkdf32 (bytes sessionSecret) (bytes ecdhShared) infoSas
  (sasCodeOf sasInput, sasInput)

def transcript (sessionId : Bytes32) (sourcePubkey targetPubkey : PublicKey) (sasInput : Bytes32) :
    Bytes :=
  bytes sessionId ++ bytes sourcePubkey.bits ++ bytes targetPubkey.bits ++ bytes sasInput

def deriveTranscriptHash (sessionId : Bytes32) (sourcePubkey targetPubkey : PublicKey)
    (sasInput sessionSecret : Bytes32) : Bytes32 :=
  L.hkdf32 (bytes sessionSecret) (transcript sessionId sourcePubkey targetPubkey sasInput) infoTranscript

def formatSas (code : Nat) : String :=
  let digits := Nat.toDigits 10 code
  String.ofList (List.replicate (6 - digits.length) '0' ++ digits)

inductive Role
  | source
  | target
  deriving DecidableEq

def Role.name : Role → String
  | .source => "Source"
  | .target => "Target"

inductive SessionState
  | waiting
  | confirming
  | awaitingConfirmation
  | transferring
  | payloadExchanged
  | completed
  | aborted
  deriving DecidableEq

def SessionState.name : SessionState → String
  | .waiting => "Waiting"
  | .confirming => "Confirming"
  | .awaitingConfirmation => "AwaitingConfirmation"
  | .transferring => "Transferring"
  | .payloadExchanged => "PayloadExchanged"
  | .completed => "Completed"
  | .aborted => "Aborted"

def SessionState.terminal : SessionState → Bool
  | .completed | .aborted => true
  | _ => false

def defaultTimeout : Nat := 120000000000

def pairingKind : Kind := 24134

structure Session (Key : Type) where
  role : Role
  state : SessionState
  keys : Key
  sessionSecret : Bytes32
  peerPubkey : Option PublicKey
  sessionId : Bytes32
  sasCode : Option Nat
  sasInput : Option Bytes32
  processedIds : List EventId
  createdAt : Nat
  timeout : Nat
  deriving DecidableEq

structure QrPayload where
  sourcePubkey : PublicKey
  sessionSecret : Bytes32
  deriving DecidableEq

/-- What is drawn when an event is built: its time stamp, the nonce of its content, and whether it
could be signed. -/
structure Draw where
  createdAt : Nat
  nonce : Nat
  signs : Bool
  deriving DecidableEq

namespace Session

variable (s : Session Key) (now : Nat)

def isExpired : Bool := s.timeout < now - s.createdAt

def checkExpired : Except PairingError Unit :=
  if s.isExpired now then .error .sessionExpired else .ok ()

def expectState (expected : SessionState) : Except PairingError Unit :=
  if s.state ≠ expected then
    .error (.unexpectedMessage ("state " ++ expected.name) ("state " ++ s.state.name))
  else .ok ()

def expectRole (expected : Role) : Except PairingError Unit :=
  if s.role ≠ expected then
    .error (.unexpectedMessage ("role " ++ expected.name) ("role " ++ s.role.name))
  else .ok ()

def turn (state : SessionState) (role : Role) : Except PairingError Unit := do
  s.checkExpired now
  s.expectState state
  s.expectRole role

def hasPTag (e : Event) : Bool :=
  e.tags.any fun t => t.kind = "p" ∧ t.values.head? = some (L.hex.encode (L.publicKey s.keys).bits)

def validateEventBasics (e : Event) : Except PairingError Unit :=
  if !L.verify e then .error (.invalidPubkey "event verification failed")
  else if e.id ∈ s.processedIds then .error (.unexpectedMessage "new event" "duplicate event id")
  else if e.kind ≠ pairingKind then
    .error (.unexpectedMessage ("kind " ++ toString pairingKind.toNat) ("kind " ++ toString e.kind.toNat))
  else if !s.hasPTag L e then
    .error (.invalidPubkey "event p-tag does not match our ephemeral pubkey")
  else .ok ()

def validateEventFromPeer (e : Event) : Except PairingError Unit := do
  s.validateEventBasics L e
  match s.peerPubkey with
  | some expected =>
    if e.pubkey ≠ expected then
      .error (.invalidPubkey ("event from " ++ L.hex.encode e.pubkey.bits ++ " but expected " ++
        L.hex.encode expected.bits))
    else .ok ()
  | none => .ok ()

def decryptMessage (e : Event) : Except PairingError PairingMessage :=
  let size := e.content.utf8ByteSize
  if size < 132 ∨ 87472 < size then
    .error (.unexpectedMessage "NIP-44 content (132–87472 chars)" (toString size ++ " chars"))
  else
    match L.decrypt s.keys e.pubkey e.content with
    | none => .error .nip44
    | some decrypted =>
      if 65535 < decrypted.utf8ByteSize then
        .error (.unexpectedMessage "plaintext ≤ 65535 bytes" (toString decrypted.utf8ByteSize ++ " bytes"))
      else
        match L.fromJson decrypted with
        | none => .error .json
        | some message => .ok message

def recordEvent (e : Event) : Session Key := { s with processedIds := e.id :: s.processedIds }

def sign (d : Draw) (kind : Kind) (tags : List Tag) (content : String) : Except PairingError Event :=
  let key := L.publicKey s.keys
  if d.signs then .ok ⟨L.eventId key d.createdAt kind tags content, key, d.createdAt, kind, tags, content⟩
  else .error .signingError

def buildEvent (d : Draw) (message : PairingMessage) : Except PairingError Event :=
  match s.peerPubkey with
  | none => .error (.invalidPubkey "no peer pubkey set")
  | some peer =>
    match L.encrypt s.keys peer (L.toJson message) d.nonce with
    | none => .error .nip44
    | some encrypted => s.sign L d pairingKind [⟨"p", [L.hex.encode peer.bits]⟩] encrypted

def unexpected {α : Type} (expected : String) (got : PairingMessage) : Except PairingError α :=
  .error (.unexpectedMessage expected got.label)

def newSource (keys : Key) (sessionSecret : Bytes32) : Session Key × QrPayload :=
  ({ role := .source
     state := .waiting
     keys
     sessionSecret
     peerPubkey := none
     sessionId := deriveSessionId L sessionSecret
     sasCode := none
     sasInput := none
     processedIds := []
     createdAt := now
     timeout := defaultTimeout },
   ⟨L.publicKey keys, sessionSecret⟩)

def offered (e : Event) : Except PairingError Unit := do
  s.turn now .waiting .source
  s.validateEventBasics L e
  match ← s.decryptMessage L e with
  | .offer sessionId version =>
    if version ≠ 1 then
      .error (.unexpectedMessage "version 1" ("version " ++ toString version))
    else if L.hex.decode sessionId = some s.sessionId then .ok ()
    else .error .invalidSessionId
  | other => unexpected "offer" other

def handleOffer (e : Event) : Session Key × Except PairingError String :=
  match s.offered L now e with
  | .error err => (s, .error err)
  | .ok () =>
    let s := { s with peerPubkey := some e.pubkey }
    match L.sharedKey s.keys e.pubkey with
    | none => (s, .error .signingError)
    | some ecdh =>
      let (code, sasInput) := deriveSas L ecdh s.sessionSecret
      ({ s with sasCode := some code, sasInput := some sasInput, state := .confirming }.recordEvent e,
        .ok (formatSas code))

/-- The hash of the transcript, with our key and the peer's in the places of our role. -/
def transcriptHash : Except PairingError Bytes32 :=
  match s.sasInput with
  | none => .error .sasMismatch
  | some sasInput =>
    match s.peerPubkey with
    | none => .error (.invalidPubkey "no peer")
    | some peer =>
      let ours := L.publicKey s.keys
      match s.role with
      | .source => .ok (deriveTranscriptHash L s.sessionId ours peer sasInput s.sessionSecret)
      | .target => .ok (deriveTranscriptHash L s.sessionId peer ours sasInput s.sessionSecret)

def emit (checks : Except PairingError PairingMessage) (d : Draw) (next : SessionState) :
    Session Key × Except PairingError Event :=
  match checks >>= s.buildEvent L d with
  | .error err => (s, .error err)
  | .ok e => ({ s with state := next }, .ok e)

def confirmSas (d : Draw) : Session Key × Except PairingError Event :=
  s.emit L (do
    s.turn now .confirming .source
    return .sasConfirm (L.hex.encode (← s.transcriptHash L))) d .transferring

def opened (state : SessionState) (role : Role) (e : Event) : Except PairingError PairingMessage := do
  s.turn now state role
  s.validateEventFromPeer L e
  s.decryptMessage L e

def receivePayload (role : Role) (e : Event) :
    Session Key × Except PairingError (PayloadType × String) :=
  match s.opened L now .transferring role e with
  | .error err => (s, .error err)
  | .ok (.payload payloadType payload) =>
    ({ s with state := .payloadExchanged }.recordEvent e, .ok (payloadType, payload))
  | .ok other => (s, unexpected "payload" other)

def handleReturnPayload (e : Event) : Session Key × Except PairingError (PayloadType × String) :=
  s.receivePayload L now .source e

def sendSourceComplete (d : Draw) (success : Bool) : Session Key × Except PairingError Event :=
  s.emit L (do
    s.turn now .payloadExchanged .source
    return .complete success) d (if success then .completed else .aborted)

def sendPayload (d : Draw) (payloadType : PayloadType) (payload : String) :
    Session Key × Except PairingError Event :=
  s.emit L (do
    s.turn now .transferring .source
    return .payload payloadType payload) d .payloadExchanged

def handleComplete (e : Event) : Session Key × Except PairingError Unit :=
  match s.opened L now .payloadExchanged .source e with
  | .error err => (s, .error err)
  | .ok (.complete true) => ({ s with state := .completed }.recordEvent e, .ok ())
  | .ok (.complete false) =>
    ({ s with state := .aborted },
      .error (.unexpectedMessage "complete(success=true)" "complete(success=false)"))
  | .ok other => (s, unexpected "complete" other)

def newTarget (qr : QrPayload) (keys : Key) (d : Draw) : Except PairingError (Session Key × Event) :=
  match L.sharedKey keys qr.sourcePubkey with
  | none => .error .signingError
  | some ecdh =>
    let (code, sasInput) := deriveSas L ecdh qr.sessionSecret
    let s : Session Key :=
      { role := .target
        state := .waiting
        keys
        sessionSecret := qr.sessionSecret
        peerPubkey := some qr.sourcePubkey
        sessionId := deriveSessionId L qr.sessionSecret
        sasCode := some code
        sasInput := some sasInput
        processedIds := []
        createdAt := now
        timeout := defaultTimeout }
    match s.buildEvent L d (.offer (L.hex.encode s.sessionId) 1) with
    | .error err => .error err
    | .ok e => .ok ({ s with state := .confirming }, e)

def handleSasConfirm (e : Event) : Session Key × Except PairingError String :=
  match s.opened L now .confirming .target e with
  | .error err => (s, .error err)
  | .ok (.sasConfirm receivedHash) =>
    match s.transcriptHash L with
    | .error err => (s, .error err)
    | .ok expectedHash =>
      if L.hex.decode receivedHash ≠ some expectedHash then
        ({ s with state := .aborted }, .error .transcriptMismatch)
      else
        let s := { s with state := .awaitingConfirmation }.recordEvent e
        match s.sasCode with
        | none => (s, .error .sasMismatch)
        | some code => (s, .ok (formatSas code))
  | .ok other => (s, unexpected "sas-confirm" other)

def confirmTargetSas : Session Key × Except PairingError Unit :=
  match s.turn now .awaitingConfirmation .target with
  | .error err => (s, .error err)
  | .ok () => ({ s with state := .transferring }, .ok ())

def handlePayload (e : Event) : Session Key × Except PairingError (PayloadType × String) :=
  s.receivePayload L now .target e

def sendComplete (d : Draw) : Session Key × Except PairingError Event :=
  s.emit L (do
    s.turn now .payloadExchanged .target
    return .complete true) d .completed

def notTerminal : Except PairingError Unit :=
  if s.state.terminal then
    .error (.unexpectedMessage "non-terminal state" ("state " ++ s.state.name))
  else .ok ()

def abort (d : Draw) (reason : AbortReason) : Session Key × Except PairingError (Option Event) :=
  match s.notTerminal with
  | .error err => (s, .error err)
  | .ok () =>
    if s.peerPubkey.isNone then ({ s with state := .aborted }, .ok none)
    else
      match s.buildEvent L d (.abort reason) with
      | .error err => (s, .error err)
      | .ok e => ({ s with state := .aborted }, .ok (some e))

def handleAbort (e : Event) : Session Key × Except PairingError AbortReason :=
  let opened : Except PairingError PairingMessage := do
    s.notTerminal
    if s.peerPubkey.isNone then .error (.invalidPubkey "cannot accept abort before peer is known")
    s.validateEventFromPeer L e
    s.decryptMessage L e
  match opened with
  | .error err => (s, .error err)
  | .ok (.abort reason) => ({ s with state := .aborted }.recordEvent e, .ok reason)
  | .ok other => (s, unexpected "abort" other)

end Session

inductive Call
  | handleOffer (e : Event)
  | confirmSas (d : Draw)
  | handleReturnPayload (e : Event)
  | sendSourceComplete (d : Draw) (success : Bool)
  | sendPayload (d : Draw) (payloadType : PayloadType) (payload : String)
  | handleComplete (e : Event)
  | handleSasConfirm (e : Event)
  | confirmTargetSas
  | handlePayload (e : Event)
  | sendComplete (d : Draw)
  | abort (d : Draw) (reason : AbortReason)
  | handleAbort (e : Event)
  | signEvent (d : Draw) (kind : Kind) (tags : List Tag) (content : String)
  deriving DecidableEq

inductive Output
  | sas (code : String)
  | event (e : Event)
  | payload (payloadType : PayloadType) (payload : String)
  | aborted (e : Option Event)
  | reason (r : AbortReason)
  | done
  deriving DecidableEq

def Session.call (s : Session Key) (now : Nat) : Call → Session Key × Except PairingError Output
  | .handleOffer e => Prod.map id (Except.map .sas) (s.handleOffer L now e)
  | .confirmSas d => Prod.map id (Except.map .event) (s.confirmSas L now d)
  | .handleReturnPayload e =>
    Prod.map id (Except.map fun p => .payload p.1 p.2) (s.handleReturnPayload L now e)
  | .sendSourceComplete d success =>
    Prod.map id (Except.map .event) (s.sendSourceComplete L now d success)
  | .sendPayload d payloadType payload =>
    Prod.map id (Except.map .event) (s.sendPayload L now d payloadType payload)
  | .handleComplete e => Prod.map id (Except.map fun _ => .done) (s.handleComplete L now e)
  | .handleSasConfirm e => Prod.map id (Except.map .sas) (s.handleSasConfirm L now e)
  | .confirmTargetSas => Prod.map id (Except.map fun _ => .done) (s.confirmTargetSas now)
  | .handlePayload e => Prod.map id (Except.map fun p => .payload p.1 p.2) (s.handlePayload L now e)
  | .sendComplete d => Prod.map id (Except.map .event) (s.sendComplete L now d)
  | .abort d reason => Prod.map id (Except.map .aborted) (s.abort L d reason)
  | .handleAbort e => Prod.map id (Except.map .reason) (s.handleAbort L e)
  | .signEvent d kind tags content => (s, (s.sign L d kind tags content).map .event)

section Sample

def hexEncode (b : Bytes32) : String := String.ofList (hexDigits 64 b.toNat)

def hexValue (c : Char) : Option Nat :=
  if '0' ≤ c ∧ c ≤ '9' then some (c.toNat - 48)
  else if 'a' ≤ c ∧ c ≤ 'f' then some (c.toNat - 87)
  else if 'A' ≤ c ∧ c ≤ 'F' then some (c.toNat - 55)
  else none

def hexDecode (s : String) : Option Bytes32 :=
  if s.toList.length = 64 then
    (s.toList.mapM hexValue).map fun digits => BitVec.ofNat 256 (digits.foldl (fun n d => n * 16 + d) 0)
  else none

theorem hexValue_digitChar : ∀ n < 16, hexValue (Nat.digitChar n) = some n := by decide

theorem mapM_hexValue (count n : Nat) : (hexDigits count n).mapM hexValue =
    some ((List.range count).reverse.map fun i => n / 16 ^ i % 16) := by
  rw [hexDigits, List.mapM_map]
  induction (List.range count).reverse with
  | nil => rfl
  | cons i is ih =>
    rw [List.mapM_cons, Function.comp_apply, hexValue_digitChar _ (Nat.mod_lt _ (by decide)), ih]
    rfl

theorem foldl_digits (count n a : Nat) :
    ((List.range count).reverse.map fun i => n / 16 ^ i % 16).foldl (fun n d => n * 16 + d) a =
      a * 16 ^ count + n % 16 ^ count := by
  induction count generalizing a with
  | zero => simp [Nat.mod_one]
  | succ count ih =>
    rw [List.range_succ, List.reverse_append, List.reverse_singleton, List.singleton_append,
      List.map_cons, List.foldl_cons, ih, Nat.mod_pow_succ]
    ring

theorem hexDecode_hexEncode (b : Bytes32) : hexDecode (hexEncode b) = some b := by
  have hlt : b.toNat < 16 ^ 64 := b.isLt
  rw [hexDecode, hexEncode, String.toList_ofList, if_pos (length_hexDigits 64 _), mapM_hexValue,
    Option.map_some, foldl_digits, Nat.zero_mul, Nat.zero_add, Nat.mod_eq_of_lt hlt, BitVec.ofNat_toNat,
    BitVec.setWidth_eq]

def lowerHex : Hex where
  encode := hexEncode
  decode := hexDecode
  decode_encode := hexDecode_hexEncode
  encode_length b := by rw [hexEncode, String.toList_ofList, length_hexDigits]
  encode_lower b c hc := by
    have hdigit : ∀ n < 16, (Nat.digitChar n).isDigit = true ∨
        'a' ≤ Nat.digitChar n ∧ Nat.digitChar n ≤ 'f' := by decide
    rw [hexEncode, String.toList_ofList, hexDigits, List.mem_map] at hc
    obtain ⟨i, -, rfl⟩ := hc
    exact hdigit _ (Nat.mod_lt _ (by decide))

end Sample

end Colony.Pairing
