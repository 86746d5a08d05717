import Colony.Defs.Core.Text
import Mathlib.Order.Defs.LinearOrder
import Mathlib.Data.List.Basic

universe u

namespace Colony.Replaceable

open Colony.Core

variable {I : Type u}

def KIND_READ_STATE : Nat := 30078

def KIND_BOOKMARK_SET : Nat := 30003

structure Coordinate where
  community : List UInt8
  kind : Nat
  pubkey : List UInt8
  dTag : String
  deriving DecidableEq

structure Event (I : Type u) where
  id : I
  pubkey : List UInt8
  createdAt : UInt64
  kind : Nat
  tags : List (List String)

inductive Precondition (I : Type u)
  | createOnly
  | unconditional
  | expectedRevision (revision : I)
  | exactReplayOnly
  deriving DecidableEq

inductive Status
  | inserted
  | duplicate
  | superseded
  | revisionMissing
  | revisionMismatch
  | replayOnlyMiss
  deriving DecidableEq

structure Submission (I : Type u) where
  community : List UInt8
  event : Event I
  dTag : String
  precondition : Precondition I

structure Stamp (I : Type u) where
  createdAt : Int
  id : I
  deriving DecidableEq

def fromTimestamp (secs : Int) : Option Int :=
  if -8334601228800 ≤ secs ∧ secs ≤ 8210266876799 then some secs else none

namespace Submission

def coordinate (sub : Submission I) : Coordinate :=
  ⟨sub.community, sub.event.kind, sub.event.pubkey, sub.dTag⟩

def createdAtSecs (sub : Submission I) : Int := sub.event.createdAt.toInt64.toInt

def stamp (sub : Submission I) : Stamp I := ⟨sub.createdAtSecs, sub.event.id⟩

def isNipRs (sub : Submission I) : Bool :=
  sub.event.kind = KIND_READ_STATE &&
    (sub.event.tags.filter fun tag => tag.head? = some "d").length = 1 &&
    (sub.event.tags.any fun tag => tag[0]? = some "d" && tag[1]? = some sub.dTag) &&
    "read-state:".toList.isPrefixOf sub.dTag.toList &&
    (let slot := sub.dTag.toList.drop 11
     slot.length = 32 && slot.all fun c => isAsciiHexDigit c && !c.isUpper) &&
    (sub.event.tags.filter fun tag => tag = ["t", "read-state"]).length = 1

def isBuzzMeshStatus (sub : Submission I) : Bool :=
  sub.event.kind = KIND_BOOKMARK_SET &&
    "buzz-mesh-member-status:".toList.isPrefixOf sub.dTag.toList &&
    sub.event.tags.any fun tag => tag = ["k", "buzz-mesh-status"]

def hardDeleteSuperseded (sub : Submission I) : Bool := sub.isNipRs || sub.isBuzzMeshStatus

end Submission

structure Row (I : Type u) where
  coordinate : Coordinate
  stamp : Stamp I
  live : Bool
  deriving DecidableEq

structure Slot (I : Type u) where
  rows : List (Row I)
  mark : Option (Stamp I)

inductive Write (I : Type u)
  | softDelete (k : Coordinate)
  | hardDelete (k : Coordinate)
  | insert (row : Row I)
  | mark (k : Coordinate) (stamp : Stamp I)

variable [LinearOrder I]

def Stamp.Newer (a b : Stamp I) : Prop :=
  b.createdAt < a.createdAt ∨ a.createdAt = b.createdAt ∧ a.id < b.id

instance (a b : Stamp I) : Decidable (a.Newer b) := inferInstanceAs (Decidable (_ ∨ _))

def newest : List (Stamp I) → Option (Stamp I)
  | [] => none
  | a :: l =>
    match newest l with
    | none => some a
    | some b => some (if b.Newer a then b else a)

def headOf (rows : List (Row I)) : Option (Stamp I) :=
  newest ((rows.filter Row.live).map Row.stamp)

def isReplay (existing watermark : Option (Stamp I)) (incoming : Stamp I) : Bool :=
  existing.any (fun s => s.id = incoming.id) || watermark.any fun s => s.id = incoming.id

def revisionRefusal (existing : Option (Stamp I)) : Precondition I → Option Status
  | .expectedRevision expected =>
    match existing with
    | none => some .revisionMissing
    | some s => if s.id ≠ expected then some .revisionMismatch else none
  | .createOnly => if existing.isSome then some .revisionMismatch else none
  | _ => none

def dominated (existing watermark : Option (Stamp I)) (incoming : Stamp I) : Bool :=
  (existing.toList ++ watermark.toList).any fun accepted =>
    incoming.createdAt < accepted.createdAt ||
      (incoming.createdAt = accepted.createdAt && accepted.id ≤ incoming.id)

def refusal (existing watermark : Option (Stamp I)) (sub : Submission I) : Option Status :=
  if isReplay existing watermark sub.stamp then some .duplicate
  else if sub.precondition = .exactReplayOnly then some .replayOnlyMiss
  else
    match revisionRefusal existing sub.precondition with
    | some status => some status
    | none => if dominated existing watermark sub.stamp then some .superseded else none

def clearing (existing : Option (Stamp I)) (sub : Submission I) : List (Write I) :=
  if existing.isSome then
    [if sub.hardDeleteSuperseded then .hardDelete sub.coordinate else .softDelete sub.coordinate]
  else []

def insertion (sub : Submission I) : Write I := .insert ⟨sub.coordinate, sub.stamp, true⟩

def marking (sub : Submission I) : List (Write I) :=
  if sub.isNipRs then [.mark sub.coordinate sub.stamp] else []

namespace Slot

def empty : Slot I := ⟨[], none⟩

def head (s : Slot I) : Option (Stamp I) := headOf s.rows

def markFor (s : Slot I) (sub : Submission I) : Option (Stamp I) :=
  if sub.isNipRs then s.mark else none

def taken (s : Slot I) (sub : Submission I) : Bool := s.rows.any fun r => r.stamp = sub.stamp

def write (s : Slot I) : Write I → Slot I
  | .softDelete _ => { s with rows := s.rows.map fun r => { r with live := false } }
  | .hardDelete _ => { s with rows := s.rows.filter fun r => !r.live }
  | .insert row => { s with rows := s.rows ++ [row] }
  | .mark _ stamp => { s with mark := some stamp }

def writes (s : Slot I) (ws : List (Write I)) : Slot I := ws.foldl write s

def replace (s : Slot I) (sub : Submission I) : Slot I × Status :=
  match refusal s.head (s.markFor sub) sub with
  | some status => (s, status)
  | none =>
    if (s.writes (clearing s.head sub)).taken sub then (s, .duplicate)
    else (s.writes (clearing s.head sub ++ [insertion sub] ++ marking sub), .inserted)

end Slot

structure Entry (I : Type u) where
  sub : Submission I
  status : Status

namespace Entry

def isInserted (e : Entry I) : Bool := e.status = .inserted

def expects (e : Entry I) (revision : I) : Bool :=
  e.sub.precondition = .expectedRevision revision

end Entry

inductive Slot.Runs (s : Slot I) : List (Entry I) → Slot I → Prop
  | nil : Slot.Runs s [] s
  | snoc {entries : List (Entry I)} {s' : Slot I} (sub : Submission I) : Slot.Runs s entries s' →
    Slot.Runs s (entries ++ [⟨sub, (s'.replace sub).2⟩]) (s'.replace sub).1

end Colony.Replaceable
