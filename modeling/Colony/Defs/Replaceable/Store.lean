import Colony.Defs.Data.Transactions
import Colony.Defs.Replaceable.Register

namespace Colony.Replaceable

open Colony.Data

variable {I : Type}

def fnv (hash : UInt64) (bytes : List UInt8) : UInt64 :=
  bytes.foldl (fun hash byte => (hash ^^^ byte.toUInt64) * 0x100000001b3) hash

def kindBytes (kind : Nat) : List UInt8 :=
  [kind.toUInt8, (kind / 256).toUInt8, (kind / 65536).toUInt8, (kind / 16777216).toUInt8]

def eventReplacementLockKey (k : Coordinate) : Int64 :=
  (fnv (fnv (fnv (fnv 0xcbf29ce484222325 k.community) (kindBytes k.kind)) k.pubkey)
    k.dTag.toUTF8.toList).toInt64

structure Tables (I : Type) where
  rows : List (Row I)
  marks : Dict Coordinate (Stamp I)

structure Db (I : Type) where
  tables : Tables I
  log : List (Entry I)

namespace Tables

def write (t : Tables I) : Write I → Tables I
  | .softDelete k =>
    { t with rows := t.rows.map fun r =>
        if r.coordinate = k ∧ r.live then { r with live := false } else r }
  | .hardDelete k => { t with rows := t.rows.filter fun r => !(r.coordinate = k && r.live) }
  | .insert row => { t with rows := t.rows ++ [row] }
  | .mark k stamp => { t with marks := t.marks.insert k stamp }

def writes (t : Tables I) (ws : List (Write I)) : Tables I := ws.foldl write t

def slot (t : Tables I) (k : Coordinate) : Slot I :=
  ⟨t.rows.filter fun r => r.coordinate = k, t.marks.lookup k⟩

/-- `SELECT created_at, id … AND deleted_at IS NULL ORDER BY created_at DESC, id ASC LIMIT 1`. -/
def head [LinearOrder I] (t : Tables I) (k : Coordinate) : Option (Stamp I) :=
  headOf (t.rows.filter fun r => r.coordinate = k)

def watermark (t : Tables I) (sub : Submission I) : Option (Stamp I) :=
  if sub.isNipRs then t.marks.lookup sub.coordinate else none

def taken [DecidableEq I] (t : Tables I) (sub : Submission I) : Bool :=
  t.rows.any fun r => r.coordinate.community = sub.community && r.stamp = sub.stamp

end Tables

/-- A call of the transaction.  `fails` if some statement after the savepoint does: an error
there rolls back to the savepoint, and the caller may go on. -/
structure Request (I : Type) where
  sub : Submission I
  fails : Bool

inductive Stage (I : Type)
  | between
  | locked (r : Request I)
  | read (r : Request I) (existing : Option (Stamp I))
  | savepoint (r : Request I) (existing : Option (Stamp I))
  | cleared (r : Request I) (pending : List (Write I))
  | inserted (r : Request I) (pending : List (Write I))

structure Tx (I : Type) where
  locks : List Int64
  writes : List (Write I)
  todo : List (Request I)
  done : List (Entry I)
  stage : Stage I

namespace Tx

def view (t : Tx I) (tables : Tables I) : Tables I := tables.writes t.writes

def finish (t : Tx I) (sub : Submission I) (status : Status) : Tx I :=
  { t with done := t.done ++ [⟨sub, status⟩], stage := .between }

variable [LinearOrder I]

def next (db : Db I) (t : Tx I) : Move (Db I) (Tx I) :=
  match t.stage with
  | .between =>
    match t.todo with
    | [] => .commit ⟨t.view db.tables, db.log ++ t.done⟩
    | r :: todo =>
      if (fromTimestamp r.sub.createdAtSecs).isSome then
        .go { t with
          locks := eventReplacementLockKey r.sub.coordinate :: t.locks
          todo := todo
          stage := .locked r }
      else .go { t with todo := todo }
  | .locked r => .go { t with stage := .read r ((t.view db.tables).head r.sub.coordinate) }
  | .read r existing =>
    match refusal existing ((t.view db.tables).watermark r.sub) r.sub with
    | some status => .go (t.finish r.sub status)
    | none => .go { t with stage := .savepoint r existing }
  | .savepoint r existing => .go { t with stage := .cleared r (clearing existing r.sub) }
  | .cleared r pending =>
    if ((t.view db.tables).writes pending).taken r.sub then .go (t.finish r.sub .duplicate)
    else .go { t with stage := .inserted r (pending ++ [insertion r.sub]) }
  | .inserted r pending =>
    if r.fails then .go { t with stage := .between }
    else .go { t.finish r.sub .inserted with writes := t.writes ++ (pending ++ marking r.sub) }

end Tx

def callers (I : Type) [LinearOrder I] : TxSystem (Db I) (Tx I) (List (Request I)) Empty where
  start _ requests := some ⟨[], [], requests, [], .between⟩
  next := Tx.next
  clash t u := t.locks.any fun key => u.locks.contains key
  env db _ := db
  blocked _ _ _ := false

def Db.empty : Db I := ⟨⟨[], ∅⟩, []⟩

end Colony.Replaceable
