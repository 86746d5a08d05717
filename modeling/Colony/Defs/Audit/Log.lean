import Colony.Defs.Core.Json
import Colony.Defs.Data.Chain
import Colony.Defs.Data.Run
import Mathlib.Data.List.MinMax

namespace Colony.Audit

open Colony.Core Colony.Data

inductive AuditAction
  | eventCreated
  | eventDeleted
  | channelCreated
  | channelUpdated
  | channelDeleted
  | memberAdded
  | memberRemoved
  | authSuccess
  | authFailure
  | rateLimitExceeded
  | mediaUploaded
  | whatsappContactUpdated
  | whatsappSendingPauseChanged
  deriving DecidableEq

namespace AuditAction

def asStr : AuditAction → String
  | eventCreated => "event_created"
  | eventDeleted => "event_deleted"
  | channelCreated => "channel_created"
  | channelUpdated => "channel_updated"
  | channelDeleted => "channel_deleted"
  | memberAdded => "member_added"
  | memberRemoved => "member_removed"
  | authSuccess => "auth_success"
  | authFailure => "auth_failure"
  | rateLimitExceeded => "rate_limit_exceeded"
  | mediaUploaded => "media_uploaded"
  | whatsappContactUpdated => "whatsapp_contact_updated"
  | whatsappSendingPauseChanged => "whatsapp_sending_pause_changed"

def all : List AuditAction :=
  [eventCreated, eventDeleted, channelCreated, channelUpdated, channelDeleted, memberAdded,
    memberRemoved, authSuccess, authFailure, rateLimitExceeded, mediaUploaded,
    whatsappContactUpdated, whatsappSendingPauseChanged]

def fromStr (s : String) : Option AuditAction := all.find? fun a => a.asStr = s

theorem fromStr_asStr (a : AuditAction) : fromStr a.asStr = some a := by
  cases a <;> decide

theorem asStr_of_fromStr {s : String} {a : AuditAction} (h : fromStr s = some a) : a.asStr = s := by
  simpa using List.find?_some h

end AuditAction

abbrev Bytes := List UInt8

def utf8 (s : String) : Bytes := s.toByteArray.data.toList

def bigEndian (count n : Nat) : Bytes := digits UInt8.ofNat 256 count n

abbrev Bigint := { n : Int // -2 ^ 63 ≤ n ∧ n < 2 ^ 63 }

def Bigint.toBeBytes (n : Bigint) : Bytes := bigEndian 8 (n.val % 2 ^ 64).toNat

structure Detail (N : Type) where
  value : Json N
  sorted : value.Sorted

structure AuditEntry (N : Type) where
  communityId : Uuid
  seq : Bigint
  hash : Bytes
  prevHash : Option Bytes
  action : AuditAction
  actorPubkey : Option Bytes
  objectId : Option String
  detail : Detail N
  createdAt : Int

structure NewAuditEntry (N : Type) where
  communityId : CommunityId
  action : AuditAction
  actorPubkey : Option Bytes
  objectId : Option String
  detail : Detail N

structure Row (N : Type) where
  communityId : Uuid
  seq : Bigint
  hash : Bytes
  prevHash : Option Bytes
  action : String
  actorPubkey : Option Bytes
  objectId : Option String
  detail : Option (Detail N)
  createdAt : Int

/-- What other libraries do: numbers in JSON, times, the digest and the key of the advisory
lock, which communities may share. -/
structure Library (N : Type) where
  numbers : NumberFormat N
  rfc3339 : Int → String
  sha256 : Bytes → Bytes
  lockKey : CommunityId → Int
  rfc3339_inj : Function.Injective rfc3339
  rfc3339_ascii : ∀ t, ∀ b ∈ utf8 (rfc3339 t), b < 97
  sha256_length : ∀ x, (sha256 x).length = 32

variable {N : Type} (L : Library N)

def genesisHash : Bytes := List.replicate 32 0

def toStoragePrecision (createdAt : Int) : Int := createdAt - createdAt % 1000

def tagged : Option Bytes → Bytes
  | some b => 1 :: b
  | none => [0]

def canonicalJson (d : Detail N) : String := String.ofList (d.value.canonical L.numbers)

def preimage (e : AuditEntry N) : Bytes :=
  bigEndian 16 e.communityId.bits.toNat ++ (e.seq.toBeBytes ++
    (utf8 (L.rfc3339 (toStoragePrecision e.createdAt)) ++ (utf8 e.action.asStr ++
      (tagged e.actorPubkey ++ (tagged (e.objectId.map utf8) ++
        (utf8 (canonicalJson L e.detail) ++ e.prevHash.getD genesisHash))))))

def computeHash (e : AuditEntry N) : Bytes := L.sha256 (preimage L e)

inductive AuditError
  | chainViolation (seq : Bigint)
  | hashMismatch (seq : Bigint)
  | unknownAction
  -- Reading a `NULL` detail panics.
  | unexpectedNull
  deriving DecidableEq

def rowToAuditEntry (row : Row N) : Except AuditError (AuditEntry N) :=
  match AuditAction.fromStr row.action, row.detail with
  | none, _ => .error .unknownAction
  | some _, none => .error .unexpectedNull
  | some action, some detail =>
    .ok {
      communityId := row.communityId
      seq := row.seq
      hash := row.hash
      prevHash := row.prevHash
      action
      actorPubkey := row.actorPubkey
      objectId := row.objectId
      detail
      createdAt := row.createdAt * 1000 }

def rowsOf (table : List (Row N)) (community : CommunityId) : List (Row N) :=
  table.filter fun row => row.communityId = community

def rowsBetween (table : List (Row N)) (community : CommunityId) (fromSeq toSeq : Int) :
    List (Row N) :=
  ((rowsOf table community).filter fun row => fromSeq ≤ row.seq.val ∧ row.seq.val ≤ toSeq)
    |>.insertionSort fun row row' => row.seq.val ≤ row'.seq.val

def verifyRows (expectedPrev : Option Bytes) : List (Row N) → Except AuditError Bool
  | [] => .ok true
  | row :: rows =>
    match rowToAuditEntry row with
    | .error e => .error e
    | .ok entry =>
      if expectedPrev.any fun expected => entry.prevHash ≠ some expected then
        .error (.chainViolation entry.seq)
      else if computeHash L entry ≠ entry.hash then .error (.hashMismatch entry.seq)
      else verifyRows (some entry.hash) rows

def verifyChain (table : List (Row N)) (community : CommunityId) (fromSeq toSeq : Int) :
    Except AuditError Bool :=
  match rowsBetween table community fromSeq toSeq with
  | [] => .ok false
  | rows => verifyRows L none rows

def headOf (table : List (Row N)) (community : CommunityId) : Option (Row N) :=
  @List.argmax _ _ Int.instLinearOrder.toPreorder _ (fun row => row.seq.val) (rowsOf table community)

def nextRow (head : Option (Row N)) (new : NewAuditEntry N) (now : Int) : Option (Row N) :=
  let prevSeq := (head.map fun row => row.seq.val).getD 0
  if h : -2 ^ 63 ≤ prevSeq + 1 ∧ prevSeq + 1 < 2 ^ 63 then
    let entry : AuditEntry N := {
      communityId := new.communityId
      seq := ⟨prevSeq + 1, h⟩
      hash := []
      prevHash := head.map Row.hash
      action := new.action
      actorPubkey := new.actorPubkey
      objectId := new.objectId
      detail := new.detail
      createdAt := toStoragePrecision now }
    some {
      communityId := entry.communityId
      seq := entry.seq
      hash := computeHash L entry
      prevHash := entry.prevHash
      action := entry.action.asStr
      actorPubkey := entry.actorPubkey
      objectId := entry.objectId
      detail := some entry.detail
      createdAt := entry.createdAt / 1000 }
  else none

inductive Phase (N : Type)
  | idle
  | locked (new : NewAuditEntry N)
  | begun (new : NewAuditEntry N)
  | headRead (new : NewAuditEntry N) (head : Option (Row N))
  | inserted (new : NewAuditEntry N) (row : Row N)
  | ended (community : CommunityId)

/-- A connection of the pool.  The advisory locks belong to it, not to the transaction, and a
session may take one again that it holds. -/
structure Session (N : Type) where
  held : List Int
  phase : Phase N

structure Server (N : Type) where
  rows : List (Row N)
  sessions : Dict Nat (Session N)

inductive Call (N : Type)
  | connect (sid : Nat)
  | lock (sid : Nat) (new : NewAuditEntry N)
  | beginTx (sid : Nat)
  | readHead (sid : Nat)
  | insert (sid : Nat) (now : Int)
  | commit (sid : Nat)
  -- A statement fails: the transaction is rolled back.
  | fail (sid : Nat)
  -- `answered` is false if the unlock fails; its result is ignored.
  | unlock (sid : Nat) (answered : Bool)
  -- The caller goes away; the connection returns to the pool with its locks.
  | cancel (sid : Nat)
  | close (sid : Nat)

def conflicts (row row' : Row N) : Bool :=
  row.communityId = row'.communityId ∧ (row.seq.val = row'.seq.val ∨ row.hash = row'.hash)

def Session.pending (x : Session N) : Option (Row N) :=
  match x.phase with
  | .inserted _ row => some row
  | _ => none

namespace Server

variable (s : Server N)

def others (sid : Nat) : List (Session N) := (s.sessions.erase sid).entries.map Sigma.snd

def put (sid : Nat) (x : Session N) : Server N := { s with sessions := s.sessions.insert sid x }

def step (s : Server N) : Call N → Server N
  | .connect sid => if (s.sessions.lookup sid).isSome then s else s.put sid ⟨[], .idle⟩
  | .lock sid new =>
    match s.sessions.lookup sid with
    | some ⟨held, .idle⟩ =>
      if (s.others sid).any fun y => L.lockKey new.communityId ∈ y.held then s
      else s.put sid ⟨L.lockKey new.communityId :: held, .locked new⟩
    | _ => s
  | .beginTx sid =>
    match s.sessions.lookup sid with
    | some ⟨held, .locked new⟩ => s.put sid ⟨held, .begun new⟩
    | _ => s
  | .readHead sid =>
    match s.sessions.lookup sid with
    | some ⟨held, .begun new⟩ => s.put sid ⟨held, .headRead new (headOf s.rows new.communityId)⟩
    | _ => s
  | .insert sid now =>
    match s.sessions.lookup sid with
    | some ⟨held, .headRead new head⟩ =>
      match nextRow L head new now with
      | none => s.put sid ⟨held, .ended new.communityId⟩
      | some row =>
        if s.rows.any (conflicts row) then s.put sid ⟨held, .ended new.communityId⟩
        else if (s.others sid).any fun y => y.pending.any (conflicts row) then s
        else s.put sid ⟨held, .inserted new row⟩
    | _ => s
  | .commit sid =>
    match s.sessions.lookup sid with
    | some ⟨held, .inserted new row⟩ =>
      { s.put sid ⟨held, .ended new.communityId⟩ with rows := s.rows ++ [row] }
    | _ => s
  | .fail sid =>
    match s.sessions.lookup sid with
    | some ⟨held, .locked new⟩ | some ⟨held, .begun new⟩ | some ⟨held, .headRead new _⟩
    | some ⟨held, .inserted new _⟩ => s.put sid ⟨held, .ended new.communityId⟩
    | _ => s
  | .unlock sid answered =>
    match s.sessions.lookup sid with
    | some ⟨held, .ended community⟩ =>
      s.put sid ⟨if answered then held.erase (L.lockKey community) else held, .idle⟩
    | _ => s
  | .cancel sid =>
    match s.sessions.lookup sid with
    | some ⟨held, _⟩ => s.put sid ⟨held, .idle⟩
    | _ => s
  | .close sid => { s with sessions := s.sessions.erase sid }

def start : Server N := ⟨[], ∅⟩

end Server

end Colony.Audit
