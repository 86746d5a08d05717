import Colony.Defs.Core.Text
import Mathlib.Data.List.Sort
import Mathlib.Order.Defs.LinearOrder

universe u

namespace Colony.Git

open Colony.Core

variable {D : Type u}

def MANIFEST_VERSION : Nat := 1

def MAX_MANIFEST_PACKS : Nat := 128

def PACK_COMPACTION_THRESHOLD : Nat := MAX_MANIFEST_PACKS * 3 / 4

def MAX_MANIFEST_REFS : Nat := 10000

abbrev Refs := List (String × String)

structure Manifest (D : Type u) where
  version : Nat
  head : String
  refs : Refs
  packs : List D
  parent : Option D
  deriving DecidableEq

/-- Pack keys and parents are digests here, so that none is malformed. -/
inductive ManifestError
  | serde
  | unsupportedVersion (got expected : Nat)
  | unsafeRefName (name : String)
  | malformedOid (refname oid : String)
  | emptyHead
  | tooManyPacks (got max : Nat)
  | tooManyRefs (got max : Nat)
  deriving DecidableEq

def containsInfix (needle : List Char) (s : List Char) : Bool :=
  s.tails.any fun rest => needle.isPrefixOf rest

def isSafeRefname (s : String) : Bool :=
  let cs := s.toList
  "refs/".toList.isPrefixOf cs && !containsInfix "..".toList cs && !containsInfix "//".toList cs &&
    cs.getLast? ≠ some '/' &&
    cs.all fun c => c.isAlphanum || c = '/' || c = '_' || c = '.' || c = '-'

def isHexOid (s : String) : Bool :=
  (s.toList.length = 40 || s.toList.length = 64) && s.toList.all isAsciiHexDigit

namespace Manifest

def checkRefs : Refs → Option ManifestError
  | [] => none
  | (refname, oid) :: refs =>
    if !isSafeRefname refname then some (.unsafeRefName refname)
    else if !isHexOid oid then some (.malformedOid refname oid)
    else checkRefs refs

def validate (m : Manifest D) : Option ManifestError :=
  if MAX_MANIFEST_PACKS < m.packs.length then some (.tooManyPacks m.packs.length MAX_MANIFEST_PACKS)
  else if MAX_MANIFEST_REFS < m.refs.length then
    some (.tooManyRefs m.refs.length MAX_MANIFEST_REFS)
  else if m.head = "" then some .emptyHead
  else if !isSafeRefname m.head then some (.unsafeRefName m.head)
  else checkRefs m.refs

end Manifest

def dedupNeighbours [DecidableEq D] : List D → List D
  | [] => []
  | [a] => [a]
  | a :: b :: l => if a = b then dedupNeighbours (b :: l) else a :: dedupNeighbours (b :: l)

@[simp] theorem mem_dedupNeighbours [DecidableEq D] {l : List D} {x : D} :
    x ∈ dedupNeighbours l ↔ x ∈ l := by
  fun_induction dedupNeighbours l with
  | case1 => exact Iff.rfl
  | case2 a => exact Iff.rfl
  | case3 b l ih =>
    rw [ih]
    simp
  | case4 a b l hne ih => rw [List.mem_cons, ih, ← List.mem_cons]

variable [LinearOrder D]

def sortedPacks (keys : List D) : List D :=
  dedupNeighbours (keys.insertionSort (· ≤ ·))

@[simp] theorem mem_sortedPacks {keys : List D} {key : D} :
    key ∈ sortedPacks keys ↔ key ∈ keys := by
  rw [sortedPacks, mem_dedupNeighbours, List.mem_insertionSort]

theorem dedupNeighbours_sorted {l : List D} (h : l.Pairwise (· ≤ ·)) :
    (dedupNeighbours l).Pairwise (· < ·) := by
  fun_induction dedupNeighbours l with
  | case1 => exact List.Pairwise.nil
  | case2 a => exact List.pairwise_singleton _ a
  | case3 b l ih => exact ih (List.pairwise_cons.1 h).2
  | case4 a b l hne ih =>
    obtain ⟨ha, hrest⟩ := List.pairwise_cons.1 h
    refine List.pairwise_cons.2 ⟨fun x hx => ?_, ih hrest⟩
    rw [mem_dedupNeighbours] at hx
    have hab : a < b := lt_of_le_of_ne (ha b List.mem_cons_self) hne
    rcases List.mem_cons.1 hx with rfl | hx
    · exact hab
    · exact lt_of_lt_of_le hab ((List.pairwise_cons.1 hrest).1 x hx)

theorem dedupNeighbours_eq_self {l : List D} (h : l.Pairwise (· < ·)) : dedupNeighbours l = l := by
  fun_induction dedupNeighbours l with
  | case1 => rfl
  | case2 a => rfl
  | case3 b l => exact absurd ((List.pairwise_cons.1 h).1 b List.mem_cons_self) (lt_irrefl b)
  | case4 a b l hne ih => rw [ih (List.pairwise_cons.1 h).2]

theorem sortedPacks_sortedPacks (keys : List D) : sortedPacks (sortedPacks keys) = sortedPacks keys := by
  have hsorted : (sortedPacks keys).Pairwise (· < ·) :=
    dedupNeighbours_sorted (List.pairwise_insertionSort _ _)
  rw [sortedPacks, (hsorted.imp le_of_lt).insertionSort_eq, dedupNeighbours_eq_self hsorted]

/-- The manifest that `canonical_bytes` serializes. -/
def Manifest.canonical (m : Manifest D) : Manifest D := { m with packs := sortedPacks m.packs }

def composeAfter (parent : Manifest D) (parentDigest : Option D) (head : String) (refs : Refs)
    (newPackKey : Option D) : Manifest D where
  version := MANIFEST_VERSION
  head := head
  refs := refs
  packs := sortedPacks (match newPackKey with
    | some k => if k ∈ parent.packs then parent.packs else parent.packs ++ [k]
    | none => parent.packs)
  parent := parentDigest

def composeCompactedAfter (parentDigest : Option D) (head : String) (refs : Refs)
    (compactedPackKeys : List D) : Manifest D where
  version := MANIFEST_VERSION
  head := head
  refs := refs
  packs := sortedPacks compactedPackKeys
  parent := parentDigest

omit [LinearOrder D]

/-- A branch that exists, if there is any: the observed one, the parent's, a usual one, the
first. -/
def resolvePublishedHead (refs : Refs) (observedHead parentHead : String) : String :=
  let branch (name : String) : Bool := "refs/heads/".toList.isPrefixOf name.toList
  let known (name : String) : Bool := refs.any fun r => r.1 = name
  if branch observedHead && known observedHead then observedHead
  else if branch parentHead && known parentHead then parentHead
  else match ["refs/heads/main", "refs/heads/master"].find? known with
    | some preferred => preferred
    | none =>
      match refs.find? fun r => branch r.1 with
      | some r => r.1
      | none => if observedHead ≠ "" then observedHead else parentHead

def shouldCompact (parentPackCount threshold : Nat) : Bool := threshold ≤ parentPackCount

def compactedPackSetIsUsable (parentPackCount compactedPackCount : Nat) : Bool :=
  compactedPackCount < parentPackCount ||
    (MAX_MANIFEST_PACKS ≤ parentPackCount && compactedPackCount ≤ MAX_MANIFEST_PACKS)

end Colony.Git
