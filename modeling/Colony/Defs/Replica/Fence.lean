import Colony.Defs.Core.Event

/-! The replica fence: what the probes of one process have proved about the readers, and the
writer, its probes and its restores around it.

A probe takes its clock, looks for open transactions and commits a heartbeat, in that order,
each step awaited by itself. -/

namespace Colony.Replica

open Colony.Core Colony.Data

def seconds (n : Int) : Int := n * 1000000

def createdAtFloor : Int := seconds 960

def fenceClockMargin : Int := seconds 5

def ringCapacity : Nat := 120

structure TokenEntry where
  token : Nat
  committedAt : Int
  fenceWall : Int
  deriving DecidableEq

structure ReplicaFence where
  epoch : Option Uuid
  ring : List TokenEntry
  deriving DecidableEq

inductive RecordOutcome
  | recorded
  | tokenRegression
  deriving DecidableEq

inductive ResolveOutcome
  | proved (entry : TokenEntry)
  | epochMismatch
  | tokenBehind
  deriving DecidableEq

namespace ReplicaFence

def new : ReplicaFence := ⟨none, []⟩

def close (f : ReplicaFence) : ReplicaFence := { f with ring := [] }

def pushBack (ring : List TokenEntry) (entry : TokenEntry) : List TokenEntry :=
  (if ring.length = ringCapacity then ring.tail else ring) ++ [entry]

def record (f : ReplicaFence) (epoch : Uuid) (entry : TokenEntry) : ReplicaFence × RecordOutcome :=
  if f.epoch ≠ some epoch then (⟨some epoch, pushBack [] entry⟩, .recorded)
  else if f.ring.getLast?.any fun last => entry.token ≤ last.token then
    ({ f with ring := [] }, .tokenRegression)
  else ({ f with ring := pushBack f.ring entry }, .recorded)

def resolve (f : ReplicaFence) (observedToken : Nat) (observedEpoch : Uuid) : ResolveOutcome :=
  if f.epoch.any fun e => e ≠ observedEpoch then .epochMismatch
  else
    match f.ring.reverse.find? fun entry => entry.token ≤ observedToken with
    | some entry => .proved entry
    | none => .tokenBehind

end ReplicaFence

structure Row where
  id : EventId
  channel : Option Uuid
  createdAt : Int
  deriving DecidableEq

/-- `start` is `xact_start`; `checked` are the rows that the deferred trigger has let through
since the commit began. -/
structure OpenTx where
  start : Int
  unchecked : List Row
  checked : List Row
  committing : Bool

inductive Commit
  | rows (rows : List Row)
  | beat (token : Nat) (epoch : Uuid)
  deriving DecidableEq

def Commit.inserted : Commit → List Row
  | .rows inserted => inserted
  | .beat _ _ => []

structure Heartbeat where
  token : Nat
  epoch : Uuid
  deriving DecidableEq

def Commit.apply (b : Heartbeat) : Commit → Heartbeat
  | .rows _ => b
  | .beat token epoch => ⟨token, epoch⟩

def heartbeat (seed : Uuid) (log : List Commit) : Heartbeat := log.foldl Commit.apply ⟨0, seed⟩

def rowsOf (log : List Commit) : List Row := log.flatMap Commit.inserted

structure Writer where
  now : Int
  seed : Uuid
  log : List Commit
  open_ : Dict Nat OpenTx

inductive WriterCall
  | tick (n : Nat)
  | start (tx : Nat)
  | insert (tx : Nat) (row : Row)
  | check (tx : Nat)
  | commit (tx : Nat)
  | rollback (tx : Nat)

namespace Writer

/-- `events_created_at_floor_guard`: a row in a channel may not be older than the floor. -/
def tooOld (w : Writer) (row : Row) : Bool :=
  row.channel.isSome && row.createdAt < w.now - createdAtFloor

def checkNext (w : Writer) (tx : Nat) (t : OpenTx) : Writer :=
  match t.unchecked with
  | [] => { w with open_ := w.open_.insert tx { t with committing := true } }
  | row :: rest =>
    if w.tooOld row then { w with open_ := w.open_.erase tx }
    else
      let t' := ⟨t.start, rest, t.checked ++ [row], true⟩
      { w with open_ := w.open_.insert tx t' }

def step (w : Writer) : WriterCall → Writer
  | .tick n => { w with now := w.now + n }
  | .start tx =>
    match w.open_.lookup tx with
    | some _ => w
    | none => { w with open_ := w.open_.insert tx ⟨w.now, [], [], false⟩ }
  | .insert tx row =>
    match w.open_.lookup tx with
    | some t =>
      if t.committing then w
      else { w with open_ := w.open_.insert tx { t with unchecked := t.unchecked ++ [row] } }
    | none => w
  | .check tx =>
    match w.open_.lookup tx with
    | some t => w.checkNext tx t
    | none => w
  | .commit tx =>
    match w.open_.lookup tx with
    | some t =>
      if t.unchecked.isEmpty then
        { w with log := w.log ++ [.rows t.checked], open_ := w.open_.erase tx }
      else w
    | none => w
  | .rollback tx => { w with open_ := w.open_.erase tx }

def current (w : Writer) : Heartbeat := heartbeat w.seed w.log

/-- `UPDATE replica_heartbeat SET token = token + 1`, with a new epoch or the old one. -/
def beat (w : Writer) (epoch : Uuid) : Writer :=
  { w with log := w.log ++ [.beat (w.current.token + 1) epoch] }

def oldestXactStart (w : Writer) : Option Int :=
  (w.open_.entries.map fun e => e.2.start).min?

end Writer

def leastTime : Option Int → Option Int → Option Int
  | some a, some b => some (min a b)
  | some a, none => some a
  | none, b => b

def fenceWall (sampledAt : Int) (oldestXactStart : Option Int) : Int :=
  let lower := match oldestXactStart with
    | some oldest => min oldest sampledAt
    | none => sampledAt
  lower - createdAtFloor - fenceClockMargin

/-- Where a probe stands.  `beaten` has committed a heartbeat and not recorded it; it is a
`rotated` one after a regression. -/
inductive Probe
  | idle
  | sampled (sampledAt : Int)
  | scanned (sampledAt : Int) (oldest : Option Int)
  | beaten (rotated : Bool) (epoch : Uuid) (entry : TokenEntry)
  | regressed (wall : Int)
  deriving DecidableEq

structure Pod where
  fence : ReplicaFence
  probe : Probe

structure Record where
  pod : Nat
  restores : Nat
  epoch : Uuid
  entry : TokenEntry
  deriving DecidableEq

structure Cluster where
  writer : Writer
  pods : Nat → Pod
  abandoned : List (List Commit)
  records : List Record

inductive Call
  | writer (c : WriterCall)
  | sample (pod : Nat)
  | scan (pod : Nat) (others : Option Int)
  | beat (pod : Nat)
  | record (pod : Nat)
  | rotate (pod : Nat) (epoch : Uuid)
  | fail (pod : Nat)
  | restore (timeline length : Nat)

namespace Cluster

def setPod (s : Cluster) (p : Nat) (pod : Pod) : Cluster :=
  { s with pods := fun q => if q = p then pod else s.pods q }

def setProbe (s : Cluster) (p : Nat) (probe : Probe) : Cluster :=
  s.setPod p ⟨(s.pods p).fence, probe⟩

def fresh (s : Cluster) (epoch : Uuid) : Bool :=
  epoch ≠ s.writer.seed && (s.writer.log :: s.abandoned).all fun log => log.all fun c =>
    match c with
    | .rows _ => true
    | .beat _ e => e ≠ epoch

def recordEntry (s : Cluster) (p : Nat) (rotated : Bool) (epoch : Uuid) (entry : TokenEntry) :
    Cluster :=
  match (s.pods p).fence.record epoch entry with
  | (fence, .recorded) =>
    { s.setPod p ⟨fence, .idle⟩ with
      records := s.records ++ [⟨p, s.abandoned.length, epoch, entry⟩] }
  | (fence, .tokenRegression) =>
    s.setPod p ⟨fence, if rotated then .idle else .regressed entry.fenceWall⟩

def commitBeat (s : Cluster) (p : Nat) (rotated : Bool) (epoch : Uuid) (wall : Int) : Cluster :=
  let entry := ⟨s.writer.current.token + 1, s.writer.now, wall⟩
  { s with writer := s.writer.beat epoch }.setProbe p (.beaten rotated epoch entry)

def step (s : Cluster) : Call → Cluster
  | .writer c => { s with writer := s.writer.step c }
  | .sample p =>
    match (s.pods p).probe with
    | .idle => s.setProbe p (.sampled s.writer.now)
    | _ => s
  | .scan p others =>
    match (s.pods p).probe with
    | .sampled at_ => s.setProbe p (.scanned at_ (leastTime s.writer.oldestXactStart others))
    | _ => s
  | .beat p =>
    match (s.pods p).probe with
    | .scanned at_ oldest => s.commitBeat p false s.writer.current.epoch (fenceWall at_ oldest)
    | _ => s
  | .record p =>
    match (s.pods p).probe with
    | .beaten rotated epoch entry => s.recordEntry p rotated epoch entry
    | _ => s
  | .rotate p epoch =>
    match (s.pods p).probe with
    | .regressed wall => if s.fresh epoch then s.commitBeat p true epoch wall else s
    | _ => s
  | .fail p => s.setPod p ⟨(s.pods p).fence.close, .idle⟩
  | .restore timeline length =>
    match (s.abandoned ++ [s.writer.log])[timeline]? with
    | some log =>
      { s with
        writer := ⟨s.writer.now, s.writer.seed, log.take length, ∅⟩
        abandoned := s.abandoned ++ [s.writer.log] }
    | none => s

def start (now : Int) (seed : Uuid) : Cluster :=
  ⟨⟨now, seed, [], ∅⟩, fun _ => ⟨.new, .idle⟩, [], []⟩

end Cluster

end Colony.Replica
