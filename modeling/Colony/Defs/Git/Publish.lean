import Colony.Defs.Data.Chain
import Colony.Defs.Data.Dict
import Colony.Defs.Data.Run
import Colony.Defs.Git.Manifest

/-! Any number of pushes to one repository on object storage.  Packs and manifests are
written under their digest and never change; the pointer is swapped under a precondition on
its entity tag. -/

universe u v

namespace Colony.Git

open Colony.Core Colony.Data

abbrev Bytes := List UInt8

/-- What names the objects of the store: `sha256` and, for manifests, the bytes `serde_json` makes
of one, which it reads back; and the entity tag of a pointer with that body. -/
structure Addressing (D : Type u) (E : Type v) where
  sha256 : Bytes → D
  toVec : Manifest D → Bytes
  fromSlice : Bytes → Option (Manifest D)
  fromSlice_toVec : ∀ m, fromSlice (toVec m) = some m
  etag : D → E

structure ParentState (D : Type u) (E : Type v) where
  ifMatch : Option E
  parentDigest : Option D
  parent : Manifest D
  deriving DecidableEq

variable {D : Type u} {E : Type v}

namespace Addressing

def pack (A : Addressing D E) (pack : Bytes) : D := A.sha256 pack

def canonicalBytes [LinearOrder D] (A : Addressing D E) (m : Manifest D) : Bytes :=
  A.toVec m.canonical

def manifest [LinearOrder D] (A : Addressing D E) (m : Manifest D) : D :=
  A.sha256 (A.canonicalBytes m)

def fromBytes (A : Addressing D E) (bytes : Bytes) : Except ManifestError (Manifest D) :=
  match A.fromSlice bytes with
  | none => .error .serde
  | some m =>
    if m.version = MANIFEST_VERSION then .ok m
    else .error (.unsupportedVersion m.version MANIFEST_VERSION)

end Addressing

def ParentState.fresh : ParentState D E := ⟨none, none, ⟨MANIFEST_VERSION, "", [], [], none⟩⟩

def ParentState.fromLoaded (etag : E) (digest : D) (parent : Manifest D) : ParentState D E :=
  ⟨some etag, some digest, parent⟩

/-- Where a push stands: the pointer read, the workspace hydrated, the manifest stored. -/
inductive Phase (D : Type u) (E : Type v)
  | observed (etag : E) (digest : D)
  | hydrated (parent : ParentState D E)
  | stored (parent : ParentState D E) (manifest : Manifest D)

structure Push (D : Type u) (E : Type v) where
  seen : Nat
  phase : Phase D E

structure Install (D : Type u) where
  manifest : Manifest D
  seen : Nat

structure Repo (D : Type u) (E : Type v) where
  packs : Dict D Bytes
  manifests : Dict D Bytes
  pointer : Option D
  pushes : Dict Nat (Push D E)
  installs : List (Install D)

/-- What git made of a push: the refs and the head of the workspace, the output of
`pack-objects` for the delta and, if it was tried and succeeded, for the whole closure. -/
structure Workspace where
  refs : Refs
  head : String
  delta : Bytes
  compaction : Option (List Bytes)

inductive GitCall
  | hydrate (p : Nat)
  | load (p : Nat)
  | publish (p : Nat) (w : Workspace)
  | swap (p : Nat)
  | fail (p : Nat)
  | upload (pack : Bytes)

namespace Repo

variable [LinearOrder D] [DecidableEq E] (A : Addressing D E)

def putPack (s : Repo D E) (pack : Bytes) : Repo D E :=
  if (s.packs.lookup (A.pack pack)).isSome then s
  else { s with packs := s.packs.insert (A.pack pack) pack }

def putPacks (s : Repo D E) (packs : List Bytes) : Repo D E := packs.foldl (putPack A) s

def putManifest (s : Repo D E) (m : Manifest D) : Repo D E :=
  if (s.manifests.lookup (A.manifest m)).isSome then s
  else { s with manifests := s.manifests.insert (A.manifest m) (A.canonicalBytes m) }

def endPush (s : Repo D E) (p : Nat) : Repo D E := { s with pushes := s.pushes.erase p }

def setPush (s : Repo D E) (p : Nat) (push : Push D E) : Repo D E :=
  { s with pushes := s.pushes.insert p push }

def hydrate (s : Repo D E) (p : Nat) : Repo D E :=
  s.setPush p ⟨s.installs.length,
    match s.pointer with
    | some digest => .observed (A.etag digest) digest
    | none => .hydrated .fresh⟩

def load (s : Repo D E) (p : Nat) (push : Push D E) (etag : E) (digest : D) : Repo D E :=
  match (s.manifests.lookup digest).filter fun bytes => A.sha256 bytes = digest with
  | some bytes =>
    match A.fromBytes bytes with
    | .ok m =>
      if m.validate = none then
        s.setPush p { push with phase := .hydrated (.fromLoaded etag digest m) }
      else s.endPush p
    | .error _ => s.endPush p
  | none => s.endPush p

end Repo

def preparedCompaction (parent : Manifest D) (w : Workspace) : Option (List Bytes) :=
  if shouldCompact parent.packs.length PACK_COMPACTION_THRESHOLD then
    if w.refs = [] then
      if compactedPackSetIsUsable parent.packs.length 0 then some [] else none
    else w.compaction.filter fun packs =>
      packs.length ≤ MAX_MANIFEST_PACKS &&
        compactedPackSetIsUsable parent.packs.length packs.length
  else none

def capturePack (w : Workspace) : Option Bytes :=
  if w.refs = [] then none else if w.delta = [] then none else some w.delta

section Compose

variable [LinearOrder D] (A : Addressing D E)

def composePush (parent : ParentState D E) (w : Workspace) : Option (List Bytes × Manifest D) :=
  let head := resolvePublishedHead w.refs w.head parent.parent.head
  match preparedCompaction parent.parent w with
  | some packs =>
    some (packs, composeCompactedAfter parent.parentDigest head w.refs (packs.map A.pack))
  | none =>
    match capturePack w with
    | some pack =>
      if MAX_MANIFEST_PACKS ≤ parent.parent.packs.length then none
      else some ([pack],
        composeAfter parent.parent parent.parentDigest head w.refs (some (A.pack pack)))
    | none => some ([], composeAfter parent.parent parent.parentDigest head w.refs none)

end Compose

namespace Repo

variable [LinearOrder D] [DecidableEq E] (A : Addressing D E)

/-- `cas_publish` up to the pointer.  Limits on sizes and failures of the store can only end
it early. -/
def publish (s : Repo D E) (p : Nat) (push : Push D E) (parent : ParentState D E)
    (w : Workspace) : Repo D E :=
  match composePush A parent w with
  | some (packs, m) =>
    let s := s.putPacks A packs
    if m.validate = none then
      (s.putManifest A m).setPush p { push with phase := .stored parent m }
    else s.endPush p
  | none => s.endPush p

def preconditionHolds (s : Repo D E) (parent : ParentState D E) : Bool :=
  match parent.ifMatch with
  | some etag => s.pointer.any fun digest => A.etag digest = etag
  | none => s.pointer.isNone

def swap (s : Repo D E) (p : Nat) (push : Push D E) (parent : ParentState D E)
    (m : Manifest D) : Repo D E :=
  if s.preconditionHolds A parent then
    { s.endPush p with
      pointer := some (A.manifest m)
      installs := s.installs ++ [⟨m, push.seen⟩] }
  else s.endPush p

def step (s : Repo D E) : GitCall → Repo D E
  | .hydrate p => if (s.pushes.lookup p).isSome then s else s.hydrate A p
  | .load p =>
    match s.pushes.lookup p with
    | some ⟨seen, .observed etag digest⟩ => s.load A p ⟨seen, .observed etag digest⟩ etag digest
    | _ => s
  | .publish p w =>
    match s.pushes.lookup p with
    | some ⟨seen, .hydrated parent⟩ => s.publish A p ⟨seen, .hydrated parent⟩ parent w
    | _ => s
  | .swap p =>
    match s.pushes.lookup p with
    | some ⟨seen, .stored parent m⟩ => s.swap A p ⟨seen, .stored parent m⟩ parent m
    | _ => s
  | .fail p => s.endPush p
  | .upload pack => s.putPack A pack

def empty : Repo D E := ⟨∅, ∅, none, ∅, []⟩

end Repo

end Colony.Git
