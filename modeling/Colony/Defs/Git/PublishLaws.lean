import Colony.Defs.Git.Publish
import Mathlib.Logic.Encodable.Pi
import Mathlib.Logic.Equiv.List

universe u v

namespace Colony.Git

open Colony.Core Colony.Data

variable {D : Type u} {E : Type v} [LinearOrder D] {A : Addressing D E} {s : Repo D E} {p : Nat}
variable {push : Push D E} {parent : ParentState D E} {m : Manifest D} {w : Workspace}

structure Repo.Uploads (s s' : Repo D E) : Prop where
  pointer : s'.pointer = s.pointer
  installs : s'.installs = s.installs
  pushes : s'.pushes = s.pushes

def Repo.chain (s : Repo D E) : List (Manifest D) := s.installs.map Install.manifest

def Repo.held (A : Addressing D E) (s : Repo D E) (push : Push D E) : Option D :=
  tip A.manifest (s.chain.take push.seen)

def Phase.Knows (A : Addressing D E) (held : Option D) : Phase D E → Prop
  | .observed etag digest => held = some digest ∧ etag = A.etag digest
  | .hydrated parent => parent.parentDigest = held ∧ parent.ifMatch = held.map A.etag
  | .stored parent m =>
    parent.parentDigest = held ∧ parent.ifMatch = held.map A.etag ∧ m.parent = held ∧
      m.canonical = m

structure Repo.Chained (A : Addressing D E) (s : Repo D E) : Prop where
  pointer : s.pointer = tip A.manifest s.chain
  linked : Linked A.manifest Manifest.parent s.chain
  canonical : ∀ m ∈ s.chain, m.canonical = m
  pushes : ∀ p push, s.pushes.lookup p = some push →
    push.seen ≤ s.installs.length ∧ push.phase.Knows A (s.held A push)

theorem Repo.empty_chained : (Repo.empty : Repo D E).Chained A :=
  ⟨rfl, linked_nil, List.forall_mem_nil _, fun _ _ h => nomatch h⟩

omit [LinearOrder D] in
theorem Addressing.toVec_injective (A : Addressing D E) : Function.Injective A.toVec := by
  intro m m' h
  have hread := A.fromSlice_toVec m
  rw [h, A.fromSlice_toVec, Option.some.injEq] at hread
  exact hread.symm

theorem Addressing.manifest_inj (hsha : Function.Injective A.sha256) {m m' : Manifest D}
    (hm : m.canonical = m) (hm' : m'.canonical = m') (h : A.manifest m = A.manifest m') : m = m' := by
  have hcanonical := A.toVec_injective (hsha h)
  rwa [hm, hm'] at hcanonical

theorem Repo.Chained.named (hsha : Function.Injective A.sha256) (h : s.Chained A) :
    ∀ m ∈ s.chain, ∀ m' ∈ s.chain, A.manifest m = A.manifest m' → m = m' :=
  fun m hm m' hm' => Addressing.manifest_inj hsha (h.canonical m hm) (h.canonical m' hm')

theorem Repo.Chained.uploads {s' : Repo D E} (h : s.Chained A) (hs : s.Uploads s') :
    s'.Chained A := by
  have hchain : s'.chain = s.chain := congrArg (List.map Install.manifest) hs.installs
  refine ⟨by rw [hs.pointer, hchain, h.pointer], hchain ▸ h.linked, hchain ▸ h.canonical,
    fun p push hp => ?_⟩
  rw [hs.pushes] at hp
  rw [hs.installs, Repo.held, hchain]
  exact h.pushes p push hp

theorem Repo.Chained.endPush (h : s.Chained A) : (s.endPush p).Chained A := by
  refine ⟨h.pointer, h.linked, h.canonical, fun q push hq => h.pushes q push ?_⟩
  rw [Repo.endPush, Dict.lookup_erase_if] at hq
  split at hq
  · cases hq
  · exact hq

theorem Repo.Chained.setPush (h : s.Chained A) (hseen : push.seen ≤ s.installs.length)
    (hknows : push.phase.Knows A (s.held A push)) : (s.setPush p push).Chained A := by
  refine ⟨h.pointer, h.linked, h.canonical, fun q push' hq => ?_⟩
  rw [Repo.setPush, Dict.lookup_insert_if] at hq
  split at hq
  · cases hq
    exact ⟨hseen, hknows⟩
  · exact h.pushes q push' hq

theorem Repo.Chained.hydrate (h : s.Chained A) : (s.hydrate A p).Chained A := by
  have hall : s.chain.take s.installs.length = s.chain :=
    List.take_of_length_le (by rw [Repo.chain, List.length_map])
  refine h.setPush le_rfl ?_
  rw [Repo.held, hall, ← h.pointer]
  cases s.pointer with
  | some digest => exact ⟨rfl, rfl⟩
  | none => exact ⟨rfl, rfl⟩

section Swap

variable [DecidableEq E]

omit [LinearOrder D] in
theorem Repo.pointer_eq_of_precondition (hetag : Function.Injective A.etag)
    (htag : parent.ifMatch = parent.parentDigest.map A.etag)
    (h : s.preconditionHolds A parent) : s.pointer = parent.parentDigest := by
  rw [Repo.preconditionHolds, htag] at h
  cases hdigest : parent.parentDigest with
  | some digest =>
    rw [hdigest] at h
    obtain ⟨held, hheld, heq⟩ := Option.any_eq_true _ _ |>.1 h
    rw [hheld, hetag (of_decide_eq_true heq)]
  | none =>
    rw [hdigest] at h
    exact Option.isNone_iff_eq_none.1 h

variable (hsha : Function.Injective A.sha256) (hetag : Function.Injective A.etag)
include hsha hetag

theorem Repo.Chained.swap_spec {seen : Nat} (h : s.Chained A)
    (hp : s.pushes.lookup p = some ⟨seen, .stored parent m⟩)
    (hpre : s.preconditionHolds A parent) :
    m.parent = s.pointer ∧ m.canonical = m ∧ seen = s.installs.length := by
  obtain ⟨hseen, hdigest, htag, hparent, hcanonical⟩ := h.pushes p _ hp
  have hpointer := Repo.pointer_eq_of_precondition hetag (hdigest ▸ htag) hpre
  refine ⟨hparent.trans (hdigest.symm.trans hpointer.symm), hcanonical, ?_⟩
  have htip : tip A.manifest (s.chain.take seen) = tip A.manifest s.chain := by
    rw [← h.pointer, hpointer, hdigest]
    rfl
  have hlength : s.chain.length = s.installs.length := List.length_map _
  rw [← hlength]
  exact h.linked.take_eq (h.named hsha) (hlength ▸ hseen) htip

theorem Repo.Chained.swap {seen : Nat} (h : s.Chained A)
    (hp : s.pushes.lookup p = some ⟨seen, .stored parent m⟩) :
    (s.swap A p ⟨seen, .stored parent m⟩ parent m).Chained A := by
  unfold Repo.swap
  split
  · next hpre =>
    obtain ⟨hparent, hcanonical, -⟩ := h.swap_spec hsha hetag hp hpre
    have hchain : (s.installs ++ [(⟨m, seen⟩ : Install D)]).map Install.manifest = s.chain ++ [m] :=
      List.map_append
    refine ⟨?_, ?_, ?_, fun q push hq => ?_⟩
    · exact (hchain ▸ tip_concat.symm :)
    · rw [Repo.chain, hchain, linked_concat, hparent, h.pointer]
      exact ⟨h.linked, rfl⟩
    · rw [Repo.chain, hchain]
      exact List.forall_mem_append.2 ⟨h.canonical, by simpa using hcanonical⟩
    · obtain ⟨hseen, hknows⟩ := h.endPush.pushes q push hq
      refine ⟨hseen.trans (List.prefix_append _ _).length_le, ?_⟩
      rw [Repo.held, Repo.chain, hchain, List.take_append_of_le_length]
      · exact hknows
      · rw [Repo.chain, List.length_map]
        exact hseen
  · exact h.endPush

end Swap

@[simp] theorem Repo.putPack_installs (pack : Bytes) :
    (s.putPack A pack).installs = s.installs := by
  unfold Repo.putPack
  split <;> rfl

@[simp] theorem Repo.putPack_pointer (pack : Bytes) :
    (s.putPack A pack).pointer = s.pointer := by
  unfold Repo.putPack
  split <;> rfl

@[simp] theorem Repo.putPack_pushes (pack : Bytes) : (s.putPack A pack).pushes = s.pushes := by
  unfold Repo.putPack
  split <;> rfl

@[simp] theorem Repo.putPack_manifests (pack : Bytes) :
    (s.putPack A pack).manifests = s.manifests := by
  unfold Repo.putPack
  split <;> rfl

@[simp] theorem Repo.putManifest_packs : (s.putManifest A m).packs = s.packs := by
  unfold Repo.putManifest
  split <;> rfl

theorem Repo.putPacks_uploads (packs : List Bytes) : s.Uploads (s.putPacks A packs) := by
  induction packs generalizing s with
  | nil => exact ⟨rfl, rfl, rfl⟩
  | cons pack packs ih =>
    obtain ⟨hpointer, hinstalls, hpushes⟩ := @ih (s.putPack A pack)
    exact ⟨hpointer.trans (by simp), hinstalls.trans (by simp), hpushes.trans (by simp)⟩

theorem Repo.putManifest_uploads : s.Uploads (s.putManifest A m) := by
  unfold Repo.putManifest
  split <;> exact ⟨rfl, rfl, rfl⟩

theorem composePush_spec {packs : List Bytes} (h : composePush A parent w = some (packs, m)) :
    m.parent = parent.parentDigest ∧ m.canonical = m := by
  have hcanonical (head : String) (keys : List D) :
      (⟨MANIFEST_VERSION, head, w.refs, sortedPacks keys, parent.parentDigest⟩ : Manifest D).canonical =
        ⟨MANIFEST_VERSION, head, w.refs, sortedPacks keys, parent.parentDigest⟩ := by
    rw [Manifest.canonical, sortedPacks_sortedPacks]
  unfold composePush at h
  split at h
  · cases h
    exact ⟨rfl, hcanonical _ _⟩
  · split at h
    · split at h
      · cases h
      · cases h
        exact ⟨rfl, hcanonical _ _⟩
    · cases h
      exact ⟨rfl, hcanonical _ _⟩

theorem Repo.load_still {etag : E} {digest : D} :
    (s.load A p push etag digest).pointer = s.pointer ∧
      (s.load A p push etag digest).installs = s.installs := by
  unfold Repo.load
  split
  · split
    · split <;> exact ⟨rfl, rfl⟩
    · exact ⟨rfl, rfl⟩
  · exact ⟨rfl, rfl⟩

theorem Repo.publish_still :
    (s.publish A p push parent w).pointer = s.pointer ∧
      (s.publish A p push parent w).installs = s.installs := by
  unfold Repo.publish
  split
  · next packs m _ =>
    have hpacks := Repo.putPacks_uploads (A := A) (s := s) packs
    split
    · have hstored := Repo.putManifest_uploads (A := A) (s := s.putPacks A packs) (m := m)
      exact ⟨hstored.pointer.trans hpacks.pointer, hstored.installs.trans hpacks.installs⟩
    · exact ⟨hpacks.pointer, hpacks.installs⟩
  · exact ⟨rfl, rfl⟩

theorem Repo.Chained.load {seen : Nat} {etag : E} {digest : D} (h : s.Chained A)
    (hp : s.pushes.lookup p = some ⟨seen, .observed etag digest⟩) :
    (s.load A p ⟨seen, .observed etag digest⟩ etag digest).Chained A := by
  obtain ⟨hseen, hheld, rfl⟩ := h.pushes p _ hp
  unfold Repo.load
  split
  · split
    · split
      · refine h.setPush hseen ⟨hheld.symm, ?_⟩
        exact (congrArg (Option.map A.etag) hheld.symm)
      · exact h.endPush
    · exact h.endPush
  · exact h.endPush

theorem Repo.Chained.publish {seen : Nat} (h : s.Chained A)
    (hp : s.pushes.lookup p = some ⟨seen, .hydrated parent⟩) :
    (s.publish A p ⟨seen, .hydrated parent⟩ parent w).Chained A := by
  obtain ⟨hseen, hdigest, htag⟩ := h.pushes p _ hp
  unfold Repo.publish
  split
  · next packs m hcompose =>
    have hpacks := Repo.putPacks_uploads (A := A) (s := s) packs
    split
    · have hstored := Repo.putManifest_uploads (A := A) (s := s.putPacks A packs) (m := m)
      have hinstalls := hstored.installs.trans hpacks.installs
      refine ((h.uploads hpacks).uploads hstored).setPush (hinstalls ▸ hseen) ?_
      rw [Repo.held, Repo.chain, hinstalls]
      obtain ⟨hparent, hcanonical⟩ := composePush_spec hcompose
      exact ⟨hdigest, htag, hparent.trans hdigest, hcanonical⟩
    · exact (h.uploads hpacks).endPush
  · exact h.endPush

/-- One step of the repository: nothing is installed, or a manifest whose parent is what the
pointer held, by a push that read the pointer after the last install. -/
def Repo.Advances (A : Addressing D E) (s s' : Repo D E) : Prop :=
  (s'.pointer = s.pointer ∧ s'.installs = s.installs) ∨
    ∃ m, s'.pointer = some (A.manifest m) ∧ m.parent = s.pointer ∧
      s'.installs = s.installs ++ [⟨m, s.installs.length⟩]

section Runs

variable [DecidableEq E]
variable (hsha : Function.Injective A.sha256) (hetag : Function.Injective A.etag)
include hsha hetag

theorem Repo.Chained.step (h : s.Chained A) (c : GitCall) : (s.step A c).Chained A := by
  unfold Repo.step
  split
  · split
    · exact h
    · exact h.hydrate
  · split
    · next hp => exact h.load hp
    · exact h
  · split
    · next hp => exact h.publish hp
    · exact h
  · split
    · next hp => exact h.swap hsha hetag hp
    · exact h
  · exact h.endPush
  · exact h.uploads (Repo.putPacks_uploads [_])

theorem Repo.Chained.advances (h : s.Chained A) (c : GitCall) :
    Repo.Advances A s (s.step A c) := by
  unfold Repo.step
  split
  · split
    · exact .inl ⟨rfl, rfl⟩
    · exact .inl ⟨rfl, rfl⟩
  · split
    · exact .inl Repo.load_still
    · exact .inl ⟨rfl, rfl⟩
  · split
    · exact .inl Repo.publish_still
    · exact .inl ⟨rfl, rfl⟩
  · split
    · next hp =>
      unfold Repo.swap
      split
      · next hpre =>
        obtain ⟨hparent, -, rfl⟩ := h.swap_spec hsha hetag hp hpre
        exact .inr ⟨_, rfl, hparent, rfl⟩
      · exact .inl ⟨rfl, rfl⟩
    · exact .inl ⟨rfl, rfl⟩
  · exact .inl ⟨rfl, rfl⟩
  · exact .inl ⟨Repo.putPack_pointer _, Repo.putPack_installs _⟩

/-- Whatever the pushes and however they interleave: the pointer names the last of the
manifests installed, each names its predecessor, none comes up twice, and the next one can
only be installed by a push that started from the last. -/
theorem run_chained (calls : List GitCall) :
    let s := runFrom (Repo.step A) Repo.empty calls
    s.pointer = tip A.manifest s.chain ∧ Linked A.manifest Manifest.parent s.chain ∧
      (s.chain.map A.manifest).Nodup ∧ ∀ c, Repo.Advances A s (s.step A c) := by
  intro s
  have h : s.Chained A :=
    runFrom_history (p := fun _ (s : Repo D E) => s.Chained A) Repo.empty_chained
      (fun _ c hs => hs.step hsha hetag c) calls
  exact ⟨h.pointer, h.linked, h.linked.nodup (h.named hsha), h.advances hsha hetag⟩

end Runs

def numbered {α : Type u} [DecidableEq α] (code : α → Nat) (known : List α) (a : α) : Nat :=
  if a ∈ known then 2 * known.idxOf a else 2 * code a + 1

theorem numbered_injective {α : Type u} [DecidableEq α] {code : α → Nat} {known : List α}
    (hcode : Function.Injective code) : Function.Injective (numbered code known) := by
  intro a b h
  unfold numbered at h
  split at h <;> split at h
  · next ha _ => exact (List.idxOf_inj ha).1 (by omega)
  · omega
  · omega
  · exact hcode (by omega)

def codeText (s : String) : List Nat := s.toList.map Char.toNat

def readText (s : List Nat) : String := String.ofList (s.map Char.ofNat)

theorem readText_codeText (s : String) : readText (codeText s) = s := by
  have hchars : (s.toList.map Char.toNat).map Char.ofNat = s.toList := by
    rw [List.map_map]
    exact List.map_id'' (fun c => Char.ofNat_toNat c) _
  rw [readText, codeText, hchars, String.ofList_toList]

def codeManifest (m : Manifest Nat) : Nat :=
  Encodable.encode (m.version, codeText m.head,
    m.refs.map (Prod.map codeText codeText), m.packs, m.parent)

def readManifest (code : Nat) : Option (Manifest Nat) :=
  (Encodable.decode code).map
    fun (m : Nat × List Nat × List (List Nat × List Nat) × List Nat × Option Nat) =>
      ⟨m.1, readText m.2.1, m.2.2.1.map (Prod.map readText readText), m.2.2.2.1, m.2.2.2.2⟩

theorem readManifest_codeManifest (m : Manifest Nat) : readManifest (codeManifest m) = some m := by
  have hrefs : (m.refs.map (Prod.map codeText codeText)).map (Prod.map readText readText) = m.refs := by
    rw [List.map_map]
    refine (List.map_congr_left fun r _ => ?_).trans (List.map_id _)
    exact Prod.ext (readText_codeText r.1) (readText_codeText r.2)
  simp only [readManifest, codeManifest, Encodable.encodek, Option.map_some, readText_codeText, hrefs]

def codePack (pack : Bytes) : Nat := Encodable.encode (pack.map UInt8.toNat)

theorem codePack_injective : Function.Injective codePack := fun _ _ h =>
  Function.Injective.list_map (fun _ _ => UInt8.toNat_inj.1) (Encodable.encode_injective h)

def main : String := "refs/heads/main"

def commitA : String := "aaaaaaaaaaaaaaaaaaaaaaaaaaaaaaaaaaaaaaaa"

def commitB : String := "bbbbbbbbbbbbbbbbbbbbbbbbbbbbbbbbbbbbbbbb"

def firstManifest : Manifest Nat := ⟨1, main, [(main, commitA)], [0], none⟩

def secondManifest : Manifest Nat := ⟨1, main, [(main, commitB)], [0, 2], some 4⟩

def thirdManifest : Manifest Nat := ⟨1, main, [(main, commitA)], [0, 2], some 6⟩

def knownManifests : List (Manifest Nat) := [firstManifest, secondManifest, thirdManifest]

def shortVec (m : Manifest Nat) : Bytes :=
  if m ∈ knownManifests then [UInt8.ofNat (knownManifests.idxOf m)]
  else 255 :: List.replicate (codeManifest m) 0

def readVec : Bytes → Option (Manifest Nat)
  | 255 :: rest => readManifest rest.length
  | [b] => knownManifests[b.toNat]?
  | _ => none

theorem readVec_shortVec (m : Manifest Nat) : readVec (shortVec m) = some m := by
  by_cases hm : m ∈ knownManifests
  · revert m
    decide +kernel
  · rw [shortVec, if_neg hm, readVec, List.length_replicate, readManifest_codeManifest]

def readable : Addressing Nat Nat where
  sha256 := numbered codePack [[10], [11], [0], [1], [2]]
  toVec := shortVec
  fromSlice := readVec
  fromSlice_toVec := readVec_shortVec
  etag := id

def workspaceA : Workspace := ⟨[(main, commitA)], main, [10], none⟩

def workspaceB : Workspace := ⟨[(main, commitB)], main, [11], none⟩

/-- Push 1 creates the branch.  Pushes 2 and 3 start from it and push 4 too; 2 wins, 3 moves
the branch back after a fresh start, and 4 is late. -/
def raceCalls : List GitCall :=
  [.hydrate 1, .publish 1 workspaceA, .swap 1,
    .hydrate 2, .load 2, .hydrate 4, .load 4, .publish 2 workspaceB, .swap 2,
    .hydrate 3, .load 3, .publish 3 ⟨[(main, commitA)], main, [], none⟩, .swap 3,
    .publish 4 workspaceB, .swap 4]

theorem run_chained_race :
    (runFrom (Repo.step readable) Repo.empty raceCalls).chain =
        [firstManifest, secondManifest, thirdManifest] ∧
      (runFrom (Repo.step readable) Repo.empty raceCalls).pointer = some 8 ∧
      Linked readable.manifest Manifest.parent
        (runFrom (Repo.step readable) Repo.empty raceCalls).chain :=
  ⟨by decide +kernel, by decide +kernel,
    (run_chained (A := readable) (numbered_injective codePack_injective)
      Function.injective_id raceCalls).2.1⟩

end Colony.Git
