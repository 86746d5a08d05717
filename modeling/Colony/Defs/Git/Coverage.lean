import Colony.Defs.Git.PublishLaws
import Mathlib.Data.Set.Basic
import Mathlib.Logic.Relation

universe u v

namespace Colony.Git

open Colony.Core Colony.Data

structure ObjectModel where
  names : String → String → Prop
  contents : Bytes → Set String

def ObjectModel.closure (G : ObjectModel) (refs : Refs) : Set String :=
  { o | ∃ r ∈ refs, Relation.ReflTransGen G.names r.2 o }

theorem ObjectModel.closure_nil (G : ObjectModel) : G.closure [] = ∅ := by
  ext o
  simp [closure]

/-- No output holds no object, `pack-objects --revs` emits what the new refs reach and the old
ones do not, and the packs of a compaction hold all that the new refs reach. -/
structure ObjectModel.Emits (G : ObjectModel) (before : Refs) (w : Workspace) : Prop where
  nothing : G.contents [] = ∅
  delta : w.refs ≠ [] → G.contents w.delta = G.closure w.refs \ G.closure before
  compaction : ∀ packs, w.compaction = some packs →
    ∀ o ∈ G.closure w.refs, ∃ pack ∈ packs, o ∈ G.contents pack

variable {D : Type u} {E : Type v} [LinearOrder D] {A : Addressing D E} {G : ObjectModel}
variable {s s' : Repo D E} {p : Nat} {push : Push D E} {parent : ParentState D E}
variable {m : Manifest D} {w : Workspace}

def Repo.Complete (G : ObjectModel) (s : Repo D E) (m : Manifest D) : Prop :=
  ∀ o ∈ G.closure m.refs, ∃ key ∈ m.packs, ∃ pack, s.packs.lookup key = some pack ∧
    o ∈ G.contents pack

def Phase.Complete (G : ObjectModel) (s : Repo D E) : Phase D E → Prop
  | .observed _ _ => True
  | .hydrated parent => s.Complete G parent.parent
  | .stored _ m => s.Complete G m

structure Repo.Covered (A : Addressing D E) (G : ObjectModel) (s : Repo D E) : Prop where
  packs : ∀ key pack, s.packs.lookup key = some pack → A.pack pack = key
  manifests : ∀ digest bytes, s.manifests.lookup digest = some bytes →
    ∀ m, A.fromSlice bytes = some m → s.Complete G m
  pushes : ∀ p push, s.pushes.lookup p = some push → push.phase.Complete G s
  installs : ∀ i ∈ s.installs, s.Complete G i.manifest

theorem Repo.empty_covered : (Repo.empty : Repo D E).Covered A G :=
  ⟨fun _ _ h => (nomatch h), fun _ _ h => (nomatch h), fun _ _ h => (nomatch h),
    List.forall_mem_nil _⟩

theorem ParentState.fresh_complete : s.Complete G (ParentState.fresh : ParentState D E).parent := by
  intro o ho
  rw [ParentState.fresh, G.closure_nil] at ho
  cases ho

def Repo.Keeps (s s' : Repo D E) : Prop :=
  ∀ key pack, s.packs.lookup key = some pack → s'.packs.lookup key = some pack

theorem Repo.Complete.keeps (h : s.Complete G m) (hkeeps : s.Keeps s') : s'.Complete G m := by
  intro o ho
  obtain ⟨key, hkey, pack, hpack, hin⟩ := h o ho
  exact ⟨key, hkey, pack, hkeeps key pack hpack, hin⟩

theorem Phase.Complete.keeps {phase : Phase D E} (h : phase.Complete G s) (hkeeps : s.Keeps s') :
    phase.Complete G s' := by
  cases phase with
  | observed etag digest => trivial
  | hydrated parent => exact Repo.Complete.keeps h hkeeps
  | stored parent m => exact Repo.Complete.keeps h hkeeps

theorem Repo.putPack_keeps (pack : Bytes) : s.Keeps (s.putPack A pack) := by
  intro key pack' h
  unfold Repo.putPack
  split
  · exact h
  · next hfree =>
    rw [Dict.lookup_insert_if, if_neg]
    · exact h
    · rintro rfl
      rw [h] at hfree
      exact hfree rfl

theorem Repo.putPacks_keeps (packs : List Bytes) : s.Keeps (s.putPacks A packs) := by
  induction packs generalizing s with
  | nil => exact fun _ _ h => h
  | cons pack packs ih => exact fun key pack' h => ih key pack' (Repo.putPack_keeps pack key pack' h)

theorem Repo.Covered.putPack (h : s.Covered A G) (pack : Bytes) :
    (s.putPack A pack).Covered A G := by
  have hkeeps := Repo.putPack_keeps (A := A) (s := s) pack
  refine ⟨fun key pack' hk => ?_, fun digest bytes hm m hread => ?_, fun p push hp => ?_,
    fun i hi => ?_⟩
  · unfold Repo.putPack at hk
    split at hk
    · exact h.packs key pack' hk
    · rw [Dict.lookup_insert_if] at hk
      split at hk
      · next heq =>
        cases hk
        exact heq.symm
      · exact h.packs key pack' hk
  · rw [Repo.putPack_manifests] at hm
    exact (h.manifests digest bytes hm m hread).keeps hkeeps
  · rw [Repo.putPack_pushes] at hp
    exact (h.pushes p push hp).keeps hkeeps
  · rw [Repo.putPack_installs] at hi
    exact (h.installs i hi).keeps hkeeps

theorem Repo.Covered.putPacks (h : s.Covered A G) (packs : List Bytes) :
    (s.putPacks A packs).Covered A G := by
  induction packs generalizing s with
  | nil => exact h
  | cons pack packs ih => exact ih (h.putPack pack)

theorem Repo.putPack_stored (hname : Function.Injective A.pack) (h : s.Covered A G) (pack : Bytes) :
    (s.putPack A pack).packs.lookup (A.pack pack) = some pack := by
  unfold Repo.putPack
  split
  · next htaken =>
    obtain ⟨pack', hpack'⟩ := Option.isSome_iff_exists.1 htaken
    rw [hpack', hname (h.packs _ _ hpack')]
  · exact AList.lookup_insert _

theorem Repo.putPacks_stored (hname : Function.Injective A.pack) (h : s.Covered A G)
    {packs : List Bytes} {pack : Bytes} (hpack : pack ∈ packs) :
    (s.putPacks A packs).packs.lookup (A.pack pack) = some pack := by
  induction packs generalizing s with
  | nil => cases hpack
  | cons first packs ih =>
    rcases List.mem_cons.1 hpack with rfl | hpack
    · exact Repo.putPacks_keeps packs _ _ (Repo.putPack_stored hname h pack)
    · exact ih (h.putPack first) hpack

omit [LinearOrder D] in
theorem preparedCompaction_covers {before : Refs} {packs : List Bytes} (hg : G.Emits before w)
    {prior : Manifest D} (h : preparedCompaction prior w = some packs) :
    ∀ o ∈ G.closure w.refs, ∃ pack ∈ packs, o ∈ G.contents pack := by
  unfold preparedCompaction at h
  split at h
  · split at h
    · next hrefs =>
      intro o ho
      rw [hrefs, G.closure_nil] at ho
      cases ho
    · exact hg.compaction packs (Option.filter_eq_some_iff.1 h).1
  · cases h

theorem closure_subset_of_no_delta {before : Refs} (hg : G.Emits before w)
    (h : capturePack w = none) : G.closure w.refs ⊆ G.closure before := by
  unfold capturePack at h
  split at h
  · next hrefs =>
    rw [hrefs, G.closure_nil]
    exact Set.empty_subset _
  · next hrefs =>
    split at h
    · next hdelta =>
      have hnew := hg.delta hrefs
      rw [hdelta, hg.nothing] at hnew
      exact Set.sdiff_eq_empty.1 hnew.symm
    · cases h

theorem contents_of_delta {before : Refs} (hg : G.Emits before w) {pack : Bytes}
    (h : capturePack w = some pack) : G.contents pack = G.closure w.refs \ G.closure before := by
  unfold capturePack at h
  split at h
  · cases h
  · next hrefs =>
    split at h
    · cases h
    · cases h
      exact hg.delta hrefs

theorem Repo.Covered.compose (hname : Function.Injective A.pack) (h : s.Covered A G)
    (hparent : s.Complete G parent.parent) (hg : G.Emits parent.parent.refs w)
    {packs : List Bytes} (hcompose : composePush A parent w = some (packs, m)) :
    (s.putPacks A packs).Complete G m := by
  unfold composePush at hcompose
  split at hcompose
  · next compacted hcompacted =>
    cases hcompose
    intro o ho
    obtain ⟨pack, hpack, hin⟩ := preparedCompaction_covers hg hcompacted o ho
    exact ⟨A.pack pack, mem_sortedPacks.2 (List.mem_map_of_mem hpack), pack,
      Repo.putPacks_stored hname h hpack, hin⟩
  · split at hcompose
    · next pack hpack =>
      split at hcompose
      · cases hcompose
      · cases hcompose
        intro o ho
        by_cases hold : o ∈ G.closure parent.parent.refs
        · obtain ⟨key, hkey, pack', hpack', hin⟩ := hparent.keeps (Repo.putPacks_keeps [pack]) o hold
          refine ⟨key, mem_sortedPacks.2 ?_, pack', hpack', hin⟩
          show key ∈ if A.pack pack ∈ parent.parent.packs then _ else _
          split
          · exact hkey
          · exact List.mem_append_left _ hkey
        · -- new objects are in the delta, stored now
          refine ⟨A.pack pack, mem_sortedPacks.2 ?_, pack,
            Repo.putPacks_stored hname h List.mem_cons_self, ?_⟩
          · show A.pack pack ∈ if A.pack pack ∈ parent.parent.packs then _ else _
            split
            · next hmem => exact hmem
            · exact List.mem_append_right _ List.mem_cons_self
          · rw [contents_of_delta hg hpack]
            exact ⟨ho, hold⟩
    · next hnone =>
      cases hcompose
      intro o ho
      obtain ⟨key, hkey, pack', hpack', hin⟩ := hparent o (closure_subset_of_no_delta hg hnone ho)
      exact ⟨key, mem_sortedPacks.2 hkey, pack', hpack', hin⟩

theorem Repo.Covered.endPush (h : s.Covered A G) : (s.endPush p).Covered A G := by
  refine ⟨h.packs, h.manifests, fun q push hq => h.pushes q push ?_, h.installs⟩
  rw [Repo.endPush, Dict.lookup_erase_if] at hq
  split at hq
  · cases hq
  · exact hq

theorem Repo.Covered.setPush (h : s.Covered A G) (hphase : push.phase.Complete G s) :
    (s.setPush p push).Covered A G := by
  refine ⟨h.packs, h.manifests, fun q push' hq => ?_, h.installs⟩
  rw [Repo.setPush, Dict.lookup_insert_if] at hq
  split at hq
  · cases hq
    exact hphase
  · exact h.pushes q push' hq

theorem Repo.Covered.putManifest (h : s.Covered A G) (hm : s.Complete G m) :
    (s.putManifest A m).Covered A G := by
  unfold Repo.putManifest
  split
  · exact h
  · refine ⟨h.packs, fun digest bytes hm' m' hread => ?_, h.pushes, h.installs⟩
    rw [Dict.lookup_insert_if] at hm'
    split at hm'
    · cases hm'
      rw [Addressing.canonicalBytes, A.fromSlice_toVec] at hread
      cases hread
      intro o ho
      obtain ⟨key, hkey, hrest⟩ := hm o ho
      exact ⟨key, mem_sortedPacks.2 hkey, hrest⟩
    · exact h.manifests digest bytes hm' m' hread

theorem Repo.Covered.hydrate (h : s.Covered A G) : (s.hydrate A p).Covered A G := by
  refine h.setPush ?_
  cases s.pointer with
  | some digest => trivial
  | none => exact ParentState.fresh_complete

theorem Repo.Covered.load {etag : E} {digest : D} (h : s.Covered A G) :
    (s.load A p push etag digest).Covered A G := by
  unfold Repo.load
  split
  · next bytes hbytes =>
    split
    · next m hread =>
      split
      · refine h.setPush (h.manifests digest bytes (Option.filter_eq_some_iff.1 hbytes).1 m ?_)
        unfold Addressing.fromBytes at hread
        split at hread
        · cases hread
        · next hslice =>
          split at hread
          · cases hread
            exact hslice
          · cases hread
      · exact h.endPush
    · exact h.endPush
  · exact h.endPush

theorem Repo.Covered.publish (hname : Function.Injective A.pack) (h : s.Covered A G)
    (hparent : s.Complete G parent.parent) (hg : G.Emits parent.parent.refs w) :
    (s.publish A p push parent w).Covered A G := by
  unfold Repo.publish
  split
  · next packs m hcompose =>
    have hm := h.compose hname hparent hg hcompose
    split
    · refine ((h.putPacks packs).putManifest hm).setPush ?_
      refine hm.keeps fun key pack hk => ?_
      rw [Repo.putManifest_packs]
      exact hk
    · exact (h.putPacks packs).endPush
  · exact h.endPush

theorem Repo.Covered.swap [DecidableEq E] {seen : Nat} (h : s.Covered A G)
    (hp : s.pushes.lookup p = some ⟨seen, .stored parent m⟩) :
    (s.swap A p push parent m).Covered A G := by
  unfold Repo.swap
  split
  · refine ⟨h.packs, h.manifests, h.endPush.pushes, fun i hi => ?_⟩
    rcases List.mem_append.1 hi with hi | hi
    · exact h.installs i hi
    · cases List.mem_singleton.1 hi
      exact h.pushes p _ hp
  · exact h.endPush

/-- Git did its part in the call, seen from the manifest that the push started from. -/
def GitCall.Faithful (G : ObjectModel) (s : Repo D E) : GitCall → Prop
  | .publish p w => ∀ seen parent, s.pushes.lookup p = some ⟨seen, .hydrated parent⟩ →
    G.Emits parent.parent.refs w
  | _ => True

theorem Repo.Covered.step [DecidableEq E] (hname : Function.Injective A.pack) (h : s.Covered A G)
    (c : GitCall) (hc : c.Faithful G s) : (s.step A c).Covered A G := by
  unfold Repo.step
  split
  · split
    · exact h
    · exact h.hydrate
  · split
    · exact h.load
    · exact h
  · split
    · next seen parent hp => exact h.publish hname (h.pushes _ _ hp) (hc seen parent hp)
    · exact h
  · split
    · next hp => exact h.swap hp
    · exact h
  · exact h.endPush
  · exact h.putPack _

/-- In every run, every manifest that was ever installed is complete. -/
theorem run_complete [DecidableEq E] (hname : Function.Injective A.pack) (calls : List GitCall)
    (hcalls : Along (Repo.step A) (fun s c => c.Faithful G s) Repo.empty calls) :
    ∀ m ∈ (runFrom (Repo.step A) Repo.empty calls).chain,
      (runFrom (Repo.step A) Repo.empty calls).Complete G m := by
  have h := hcalls.preserves (p := fun s => s.Covered A G)
    (fun s c hs hc => hs.step hname c hc) Repo.empty_covered
  intro m hm
  obtain ⟨i, hi, rfl⟩ := List.mem_map.1 hm
  exact h.installs i hi

def twoCommits : ObjectModel where
  names x y := x = commitB ∧ y = commitA
  contents pack := { o | pack = [10] ∧ o = commitA ∨ pack = [11] ∧ o = commitB }

theorem twoCommits_reach {x y : String} (h : Relation.ReflTransGen twoCommits.names x y) :
    y = x ∨ x = commitB ∧ y = commitA := by
  induction h with
  | refl => exact .inl rfl
  | tail _ hlast ih =>
    obtain ⟨rfl, rfl⟩ := hlast
    rcases ih with rfl | ⟨rfl, -⟩
    · exact .inr ⟨rfl, rfl⟩
    · exact .inr ⟨rfl, rfl⟩

theorem twoCommits_closure_first : twoCommits.closure [(main, commitA)] = {commitA} := by
  ext o
  simp only [ObjectModel.closure, List.mem_singleton, exists_eq_left, Set.mem_ofPred_eq,
    Set.mem_singleton_iff]
  refine ⟨fun h => ?_, fun h => h ▸ .refl⟩
  rcases twoCommits_reach h with rfl | ⟨hne, -⟩
  · rfl
  · exact absurd hne (by decide +kernel)

theorem twoCommits_closure_second : twoCommits.closure [(main, commitB)] = {commitB, commitA} := by
  ext o
  simp only [ObjectModel.closure, List.mem_singleton, exists_eq_left, Set.mem_ofPred_eq,
    Set.mem_insert_iff, Set.mem_singleton_iff]
  refine ⟨fun h => ?_, fun h => ?_⟩
  · rcases twoCommits_reach h with rfl | ⟨-, rfl⟩
    · exact .inl rfl
    · exact .inr rfl
  · rcases h with rfl | rfl
    · exact .refl
    · exact .single ⟨rfl, rfl⟩

theorem twoCommits_first : twoCommits.Emits [] workspaceA where
  nothing := by
    ext o
    simp [twoCommits]
  delta _ := by
    rw [twoCommits.closure_nil, Set.sdiff_empty]
    refine Eq.trans ?_ twoCommits_closure_first.symm
    ext o
    simp [twoCommits, workspaceA]
  compaction _ h := nomatch h

theorem twoCommits_second : twoCommits.Emits [(main, commitA)] workspaceB where
  nothing := twoCommits_first.nothing
  delta _ := by
    rw [twoCommits_closure_first]
    have hne : commitB ≠ commitA := by decide +kernel
    ext o
    rw [show workspaceB.refs = [(main, commitB)] from rfl, twoCommits_closure_second]
    simp only [twoCommits, workspaceB, Set.mem_ofPred_eq, Set.mem_sdiff, Set.mem_insert_iff,
      Set.mem_singleton_iff]
    constructor
    · rintro (⟨hpack, -⟩ | ⟨-, rfl⟩)
      · cases hpack
      · exact ⟨.inl rfl, hne⟩
    · rintro ⟨rfl | rfl, hnot⟩
      · exact .inr ⟨trivial, rfl⟩
      · exact absurd rfl hnot
  compaction _ h := nomatch h

def Push.startRefs (push : Push D E) : Refs :=
  match push.phase with
  | .hydrated parent => parent.parent.refs
  | _ => []

omit [LinearOrder D] in
theorem GitCall.faithful_of_startRefs {G : ObjectModel} {s : Repo D E} {p : Nat} {w : Workspace}
    {before : Refs} (h : (s.pushes.lookup p).map Push.startRefs = some before)
    (hg : G.Emits before w) : (GitCall.publish p w).Faithful G s := by
  intro seen parent hp
  rw [hp] at h
  cases h
  exact hg

def twoPushes : List GitCall :=
  [.hydrate 1, .publish 1 workspaceA, .swap 1, .hydrate 2, .load 2, .publish 2 workspaceB, .swap 2]

theorem run_complete_twoPushes :
    (runFrom (Repo.step readable) Repo.empty twoPushes).chain = [firstManifest, secondManifest] ∧
      (runFrom (Repo.step readable) Repo.empty twoPushes).Complete twoCommits secondManifest := by
  have hchain : (runFrom (Repo.step readable) Repo.empty twoPushes).chain =
      [firstManifest, secondManifest] := by decide +kernel
  refine ⟨hchain, run_complete (A := readable) (numbered_injective codePack_injective) twoPushes ?_ _ ?_⟩
  · exact ⟨trivial, GitCall.faithful_of_startRefs (by decide +kernel) twoCommits_first, trivial, trivial,
      trivial, GitCall.faithful_of_startRefs (by decide +kernel) twoCommits_second, trivial, trivial⟩
  · rw [hchain]
    exact List.mem_cons_of_mem _ List.mem_cons_self

end Colony.Git
