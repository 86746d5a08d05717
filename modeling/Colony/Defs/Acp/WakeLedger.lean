import Colony.Defs.Core.Event
import Mathlib.Data.Finset.Basic
import Mathlib.Data.List.Sort

namespace Colony.Acp

open Colony.Data Colony.Core

def U64_MAX : Nat := 2 ^ 64 - 1

def saturatingAdd (a b : Nat) : Nat := min (a + b) U64_MAX

def SINCE_SKEW_SECS : Nat := 5
def MAX_LOOKBACK_SECS : Nat := 7 * 24 * 60 * 60
def MAX_HANDLED : Nat := 512
def SETTLE_SECS : Nat := 30
def WRITE_RETRY_SECS : Nat := 30
def MAX_FILE_BYTES : Nat := 256 * 1024
def MAX_REDELIVERIES : Nat := 3
def REDELIVERY_BACKOFF_SECS : List Nat := [0, 30, 120]
def MAX_ABANDONED : Nat := 32
def MAX_TURNS : Nat := 64
def FILE_VERSION : Nat := 1

structure HandledEvent where
  id : EventId
  createdAt : Nat
  deriving DecidableEq

structure InFlightEvent where
  id : EventId
  createdAt : Nat
  restarts : Nat
  lastAttempt : Nat
  deriving DecidableEq

structure LedgerFile where
  version : Nat
  relayUrl : String
  agentPubkey : String
  floor : Nat
  evictedFloor : Nat
  handled : List HandledEvent
  inFlight : List InFlightEvent
  abandoned : List HandledEvent
  deriving DecidableEq

def jsonNatLen (n : Nat) : Nat := (Nat.toDigits 10 n).length

def jsonCharLen (c : Char) : Nat :=
  if c = '"' ∨ c = '\\' ∨ c = '\n' ∨ c = '\r' ∨ c = '\t' ∨ c.toNat = 8 ∨ c.toNat = 12 then 2
  else if c.toNat < 32 then 6
  else c.utf8Size

def jsonStringLen (s : String) : Nat := 2 + (s.toList.map jsonCharLen).sum

def jsonArrayLen (lens : List Nat) : Nat := 2 + (lens.length - 1) + lens.sum

def jsonObjectLen (fields : List (String × Nat)) : Nat :=
  2 + (fields.length - 1) + (fields.map fun f => jsonStringLen f.1 + 1 + f.2).sum

def jsonIdLen : Nat := 66

def HandledEvent.jsonLen (e : HandledEvent) : Nat :=
  jsonObjectLen [("id", jsonIdLen), ("createdAt", jsonNatLen e.createdAt)]

def InFlightEvent.jsonLen (e : InFlightEvent) : Nat :=
  jsonObjectLen [("id", jsonIdLen), ("createdAt", jsonNatLen e.createdAt),
    ("restarts", jsonNatLen e.restarts), ("lastAttempt", jsonNatLen e.lastAttempt)]

def LedgerFile.jsonLen (f : LedgerFile) : Nat :=
  jsonObjectLen [("version", jsonNatLen f.version), ("relayUrl", jsonStringLen f.relayUrl),
    ("agentPubkey", jsonStringLen f.agentPubkey), ("floor", jsonNatLen f.floor),
    ("evictedFloor", jsonNatLen f.evictedFloor),
    ("handled", jsonArrayLen (f.handled.map HandledEvent.jsonLen)),
    ("inFlight", jsonArrayLen (f.inFlight.map InFlightEvent.jsonLen)),
    ("abandoned", jsonArrayLen (f.abandoned.map HandledEvent.jsonLen))]

inductive Admission
  | duplicate
  | live
  | caughtUp
  deriving DecidableEq

inductive SyncOutcome
  | unchanged
  | written
  | deferred
  | failed
  deriving DecidableEq

def SyncOutcome.isSaved : SyncOutcome → Bool
  | .unchanged | .written => true
  | .deferred | .failed => false

structure WakeLedger where
  relayUrl : String
  agentPubkey : String
  catchUpSince : Option Nat
  liveCutoff : Nat
  baseline : Nat
  settleUntil : Nat
  newestReceived : Option Nat
  handled : List HandledEvent
  handledIds : Finset EventId
  committed : Finset EventId
  evictedFloor : Nat
  released : Dict EventId Nat
  inFlight : Dict EventId InFlightEvent
  carried : Dict EventId Nat
  abandoned : List HandledEvent
  stopped : List HandledEvent
  turns : List (String × List EventId)
  written : Option LedgerFile
  retryAt : Option Nat

structure Saved where
  outcome : SyncOutcome
  ledger : WakeLedger
  disk : Option LedgerFile

namespace WakeLedger

def evict (l : WakeLedger) (evicted : HandledEvent) : WakeLedger :=
  { l with
    handledIds := l.handledIds.erase evicted.id
    committed := l.committed.erase evicted.id
    evictedFloor :=
      max l.evictedFloor (saturatingAdd evicted.createdAt (SINCE_SKEW_SECS + 1)) }

def remember (l : WakeLedger) (entry : HandledEvent) : WakeLedger :=
  if entry.id ∈ l.handledIds then l
  else
    let handled := l.handled ++ [entry]
    let excess := handled.length - MAX_HANDLED
    (handled.take excess).foldl evict
      { l with handled := handled.drop excess, handledIds := insert entry.id l.handledIds }

def redeliveryPause (restarts : Nat) : Nat :=
  REDELIVERY_BACKOFF_SECS.getD (min restarts (REDELIVERY_BACKOFF_SECS.length - 1)) 0

inductive Recovery
  | giveUp
  | pause
  | deliver
  deriving DecidableEq

def recovery (now : Nat) (entry : InFlightEvent) : Recovery :=
  if entry.restarts + 1 > MAX_REDELIVERIES then .giveUp
  else if now < saturatingAdd entry.lastAttempt (redeliveryPause entry.restarts) then .pause
  else .deliver

def recoverOne (now : Nat) (l : WakeLedger) (entry : InFlightEvent) : WakeLedger :=
  let handled : HandledEvent := ⟨entry.id, entry.createdAt⟩
  match recovery now entry with
  | .giveUp =>
    let l := l.remember handled
    let abandoned := l.abandoned ++ [handled]
    { l with
      abandoned := abandoned.drop (abandoned.length - MAX_ABANDONED)
      stopped := l.stopped ++ [handled] }
  | .pause =>
    let l := l.remember handled
    { l with inFlight := l.inFlight.insert entry.id entry }
  | .deliver =>
    { l with
      released := l.released.insert entry.id entry.createdAt
      carried := l.carried.insert entry.id (entry.restarts + 1) }

def recoverInterrupted (l : WakeLedger) (events : List InFlightEvent) (now : Nat) : WakeLedger :=
  events.foldl (recoverOne now) l

/-- The file when it is readable and was written for this employee, relay and format. -/
def readFile (disk : Option LedgerFile) (relayUrl agentPubkey : String) : Option LedgerFile :=
  disk.filter fun file => decide (file.jsonLen ≤ MAX_FILE_BYTES) &&
    decide (file.version = FILE_VERSION) && decide (file.relayUrl = relayUrl) &&
    decide (file.agentPubkey = agentPubkey)

def rememberAbandoned (l : WakeLedger) (entry : HandledEvent) : WakeLedger :=
  let l := l.remember entry
  { l with abandoned := l.abandoned ++ [entry] }

def openFile (disk : Option LedgerFile) (relayUrl agentPubkey : String)
    (now startupWatermark : Nat) : WakeLedger :=
  let loaded := readFile disk relayUrl agentPubkey
  let evictedFloor := loaded.elim 0 (·.evictedFloor)
  let catchUpSince := loaded.map fun file =>
    max (min (max (now - MAX_LOOKBACK_SECS) (min file.floor now)) startupWatermark) evictedFloor
  let ledger : WakeLedger :=
    { relayUrl := relayUrl
      agentPubkey := agentPubkey
      catchUpSince := catchUpSince
      liveCutoff := startupWatermark - SINCE_SKEW_SECS
      baseline := catchUpSince.getD startupWatermark
      settleUntil := saturatingAdd now SETTLE_SECS
      newestReceived := none
      handled := []
      handledIds := ∅
      committed := ∅
      evictedFloor := evictedFloor
      released := ∅
      inFlight := ∅
      carried := ∅
      abandoned := []
      stopped := []
      turns := []
      written := none
      retryAt := none }
  let ledger := (loaded.elim [] (·.handled)).foldl remember ledger
  let ledger := (loaded.elim [] (·.abandoned)).foldl rememberAbandoned ledger
  let ledger := ledger.recoverInterrupted (loaded.elim [] (·.inFlight)) now
  match ledger.catchUpSince with
  | none => ledger
  | some since =>
    -- Trimming an older file can raise the boundary during load.
    let since := max since ledger.evictedFloor
    { ledger with catchUpSince := some since, baseline := since }

def admitEvent (l : WakeLedger) (event : HandledEvent) (now : Nat) : Admission × WakeLedger :=
  let seenAt := min event.createdAt now
  let l := { l with
    newestReceived := some (l.newestReceived.elim seenAt fun newest => max newest seenAt)
    released := l.released.erase event.id }
  if event.id ∈ l.handledIds then (.duplicate, l)
  else
    let l := l.remember event
    (if l.catchUpSince.isSome && decide (event.createdAt < l.liveCutoff) then .caughtUp else .live, l)

def snapshot (l : WakeLedger) (pending : List HandledEvent) (now : Nat) : LedgerFile :=
  let pending := pending.filter fun event => !decide (event.id ∈ l.committed)
  let caughtUp := if now < l.settleUntil then l.baseline
    else max (l.newestReceived.getD l.baseline) l.baseline
  let lowestUnhandled := (pending.map (·.createdAt) ++ (l.released.entries.map fun e => e.2) ++
    l.inFlight.entries.map fun e => e.2.createdAt).min?
  let floor := max (lowestUnhandled.elim caughtUp fun lowest => min lowest caughtUp) l.evictedFloor
  { version := FILE_VERSION
    relayUrl := l.relayUrl
    agentPubkey := l.agentPubkey
    floor := floor
    evictedFloor := l.evictedFloor
    handled := l.handled.filter fun entry =>
      !decide (entry.id ∈ pending.map (·.id)) && !(l.inFlight.lookup entry.id).isSome
    inFlight := (l.inFlight.entries.map fun e => e.2).insertionSort fun a b =>
      a.createdAt < b.createdAt ∨ (a.createdAt = b.createdAt ∧ a.id.bits ≤ b.id.bits)
    abandoned := l.abandoned }

def writeSnapshot (l : WakeLedger) (disk : Option LedgerFile) (pending : List HandledEvent)
    (now : Nat) (ok : Bool) : Saved :=
  let file := l.snapshot pending now
  if l.written = some file then ⟨.unchanged, { l with retryAt := none }, disk⟩
  else if ok then ⟨.written, { l with written := some file, retryAt := none }, some file⟩
  else ⟨.failed, { l with retryAt := some (saturatingAdd now WRITE_RETRY_SECS) }, disk⟩

def sync (l : WakeLedger) (disk : Option LedgerFile) (pending : List HandledEvent) (now : Nat)
    (ok : Bool) : Saved :=
  if l.retryAt.any fun retryAt => decide (now < retryAt) then ⟨.deferred, l, disk⟩
  else l.writeSnapshot disk pending now ok

abbrev Undo := EventId × Option InFlightEvent × Option Nat

def commitOne (now : Nat) (acc : WakeLedger × List Undo) (event : HandledEvent) :
    WakeLedger × List Undo :=
  let l := acc.1.remember event
  if event.id ∈ l.committed then (l, acc.2)
  else
    let carried := l.carried.lookup event.id
    let previous := l.inFlight.lookup event.id
    let restarts := (carried <|> previous.map (·.restarts)).getD 0
    ({ l with
        committed := insert event.id l.committed
        carried := l.carried.erase event.id
        inFlight := l.inFlight.insert event.id ⟨event.id, event.createdAt, restarts, now⟩ },
      acc.2 ++ [(event.id, previous, carried)])

def uncommitOne (l : WakeLedger) (undo : Undo) : WakeLedger :=
  { l with
    committed := l.committed.erase undo.1
    inFlight := match undo.2.1 with
      | some entry => l.inFlight.insert undo.1 entry
      | none => l.inFlight.erase undo.1
    carried := match undo.2.2 with
      | some restarts => l.carried.insert undo.1 restarts
      | none => l.carried }

def commit (l : WakeLedger) (disk : Option LedgerFile) (events pending : List HandledEvent)
    (now : Nat) (ok : Bool) : Saved :=
  let (l, newlyCommitted) := events.foldl (commitOne now) (l, [])
  let saved := l.sync disk pending now ok
  if saved.outcome.isSaved then saved
  else { saved with ledger := newlyCommitted.foldl uncommitOne saved.ledger }

def attachToTurn (l : WakeLedger) (turnId : String) (eventIds : List EventId) : WakeLedger :=
  if l.turns.any fun turn => decide (turn.1 = turnId) then
    let position := l.turns.findIdx fun turn => decide (turn.1 = turnId)
    let turns := l.turns.modify position fun turn => (turn.1, eventIds.foldl pushNew turn.2)
    { l with turns := turns }
  else
    let turns := l.turns ++ [(turnId, eventIds)]
    { l with turns := turns.drop (turns.length - MAX_TURNS) }

def finishTurn (l : WakeLedger) (disk : Option LedgerFile) (turnId : String) (answered : Bool)
    (pending : List HandledEvent) (now : Nat) (ok : Bool) : Saved :=
  match l.turns.find? fun turn => decide (turn.1 = turnId) with
  | none => l.sync disk pending now ok
  | some turn =>
    let l := { l with turns := l.turns.eraseP fun turn => decide (turn.1 = turnId) }
    let l := if answered then
        { l with inFlight := turn.2.foldl (fun inFlight id => inFlight.erase id) l.inFlight }
      else l
    l.sync disk pending now ok

def takeStoppedEvent (l : WakeLedger) (eventId : EventId) : Bool × WakeLedger :=
  let stopped := l.stopped.filter fun entry => !decide (entry.id = eventId)
  (!decide (stopped.length = l.stopped.length), { l with stopped := stopped })

def settleAnswered (l : WakeLedger) (disk : Option LedgerFile) (eventId : EventId)
    (pending : List HandledEvent) (now : Nat) (ok : Bool) : Saved :=
  sync { l with carried := l.carried.erase eventId, inFlight := l.inFlight.erase eventId }
    disk pending now ok

def paused (l : WakeLedger) (floor : Nat) : List InFlightEvent :=
  (l.inFlight.entries.map fun e => e.2).filter fun entry =>
    decide (entry.createdAt ≥ floor) && decide (entry.id ∈ l.handledIds) &&
      !decide (entry.id ∈ l.committed)

/-- The events a retry brings back, each with its time and new count.  The ids are distinct, so
the order the map of paused ones is walked in does not matter. -/
def reopened (l : WakeLedger) (floor : Nat) : List (EventId × Nat × Nat) :=
  ((l.abandoned.filter fun entry => decide (entry.createdAt ≥ floor)).map fun entry =>
      (entry.id, entry.createdAt, 0)) ++
    (l.paused floor).map fun entry =>
      (entry.id, entry.createdAt, min entry.restarts (MAX_REDELIVERIES - 1) + 1)

def reopenOne (l : WakeLedger) (event : EventId × Nat × Nat) : WakeLedger :=
  { l with
    handledIds := l.handledIds.erase event.1
    handled := l.handled.filter fun entry => !decide (entry.id = event.1)
    stopped := l.stopped.filter fun entry => !decide (entry.id = event.1)
    released := l.released.insert event.1 event.2.1
    carried := l.carried.insert event.1 event.2.2 }

def reopenForRetry (l : WakeLedger) (floor : Nat) : Nat × WakeLedger :=
  let reopened := l.reopened floor
  let l := { l with
    abandoned := l.abandoned.filter fun entry => !decide (entry.createdAt ≥ floor)
    inFlight := (l.paused floor).foldl (fun inFlight entry => inFlight.erase entry.id) l.inFlight }
  let l := match (reopened.map fun event => event.2.1).min? with
    | none => l
    | some lowest =>
      let since := max (l.catchUpSince.elim lowest fun since => min since lowest) l.evictedFloor
      { l with catchUpSince := some since, baseline := min l.baseline since }
  (reopened.length, reopened.foldl reopenOne l)

def forgetOne (l : WakeLedger) (entry : HandledEvent) : WakeLedger :=
  { l with
    handledIds := l.handledIds.erase entry.id
    committed := l.committed.erase entry.id
    inFlight := l.inFlight.erase entry.id
    released := l.released.insert entry.id entry.createdAt }

def forgetEvents (l : WakeLedger) (disk : Option LedgerFile) (eventIds : List EventId)
    (pending : List HandledEvent) (now : Nat) (ok : Bool) : Saved :=
  let forgotten := l.handled.filter fun entry => decide (entry.id ∈ eventIds)
  let kept := l.handled.filter fun entry => !decide (entry.id ∈ eventIds)
  writeSnapshot { forgotten.foldl forgetOne l with handled := kept } disk pending now ok

end WakeLedger

end Colony.Acp
