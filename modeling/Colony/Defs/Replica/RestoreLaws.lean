import Colony.Defs.Replica.FenceLaws

namespace Colony.Replica

open Colony.Core Colony.Data

namespace Cluster

def Detects (s : Cluster) (p : Nat) (epoch : Uuid) (token : Nat) : Prop :=
  (s.pods p).fence.epoch = some epoch ∧
    ∃ last, (s.pods p).fence.ring.getLast? = some last ∧ token ≤ last.token

-- No session of an abandoned timeline can have observed the token, or a higher one of its epoch.
def Beyond (s : Cluster) (epoch : Uuid) (token : Nat) : Prop :=
  ∀ log ∈ s.abandoned, ∀ t, .beat t epoch ∈ log → t < token

/-- A pod that has committed a heartbeat when the writer is restored, and one that commits a token
which an abandoned timeline has reached under the same epoch, will notice the regression. -/
def Steady (s : Cluster) : Call → Prop
  | .restore _ _ => ∀ p rotated epoch entry, (s.pods p).probe = .beaten rotated epoch entry →
    s.Detects p epoch entry.token
  | .beat p => ∀ at_ oldest, (s.pods p).probe = .scanned at_ oldest →
    s.Beyond s.writer.current.epoch (s.writer.current.token + 1) ∨
      s.Detects p s.writer.current.epoch (s.writer.current.token + 1)
  | _ => True

/-- A heartbeat that is committed and not recorded will be noticed; or it is of this timeline, and
higher than what the abandoned ones have and the pod has recorded. -/
def Awaited (s : Cluster) (p : Nat) (epoch : Uuid) (token : Nat) : Prop :=
  s.Detects p epoch token ∨ s.Beyond epoch token ∧ .beat token epoch ∈ s.writer.log ∧
    ∀ r ∈ s.records, r.pod = p → r.epoch = epoch → r.entry.token < token

structure Apart (s : Cluster) : Prop where
  counting : ∀ log ∈ s.writer.log :: s.abandoned, Counting s.writer.seed log
  -- What was recorded after a restore is higher than what the timeline that it left has reached.
  records : ∀ r ∈ s.records, ∀ i log, s.abandoned[i]? = some log → i < r.restores →
    ∀ t, .beat t r.epoch ∈ log → t < r.entry.token
  restores : ∀ r ∈ s.records, r.restores ≤ s.abandoned.length
  rising : s.records.Pairwise fun r r' => r.pod = r'.pod → r.epoch = r'.epoch →
    r.entry.token < r'.entry.token
  known : ∀ r ∈ s.records, ∃ log ∈ s.writer.log :: s.abandoned, .beat r.entry.token r.epoch ∈ log
  awaited : ∀ p rotated epoch entry, (s.pods p).probe = .beaten rotated epoch entry →
    s.Awaited p epoch entry.token

end Cluster

section Timelines

variable {seed epoch : Uuid} {log : List Commit} {token : Nat}

theorem mem_heartbeat (seed : Uuid) (log : List Commit) : heartbeat seed log = ⟨0, seed⟩ ∨
    .beat (heartbeat seed log).token (heartbeat seed log).epoch ∈ log := by
  induction log using List.reverseRecOn with
  | nil => exact .inl rfl
  | append_singleton log c ih =>
    rw [heartbeat_concat]
    cases c with
    | rows _ => exact ih.imp_right (List.mem_append_left _)
    | beat token epoch => exact .inr (List.mem_append_right _ (List.mem_singleton_self _))

theorem Counting.take (h : Counting seed log) (k : Nat) : Counting seed (log.take k) := by
  intro j token epoch hj
  rw [List.getElem?_take] at hj
  split at hj
  · next hlt =>
    rw [List.take_take, min_eq_left hlt.le]
    exact h j token epoch hj
  · cases hj

theorem Counting.token_pos (h : Counting seed log) (hmem : .beat token epoch ∈ log) : 0 < token := by
  obtain ⟨j, hj⟩ := List.mem_iff_getElem?.1 hmem
  rw [h j token epoch hj]
  exact Nat.succ_pos _

theorem Counting.token_le (h : Counting seed log) (hmem : .beat token epoch ∈ log) :
    token ≤ (heartbeat seed log).token := by
  obtain ⟨j, hj⟩ := List.mem_iff_getElem?.1 hmem
  have hlt := (List.getElem?_eq_some_iff.1 hj).1
  have hmono := h.mono (Nat.succ_le_of_lt hlt)
  rw [List.take_length, List.take_add_one, hj, Option.toList_some, heartbeat_concat] at hmono
  exact hmono

end Timelines

theorem Writer.step_log (w : Writer) (c : WriterCall) : (w.step c).seed = w.seed ∧
    ((w.step c).log = w.log ∨ ∃ rows, (w.step c).log = w.log ++ [.rows rows]) := by
  have hsame {w' : Writer} (hseed : w'.seed = w.seed) (hlog : w'.log = w.log) :
      w'.seed = w.seed ∧ (w'.log = w.log ∨ ∃ rows, w'.log = w.log ++ [.rows rows]) :=
    ⟨hseed, .inl hlog⟩
  cases c with
  | tick n => exact hsame rfl rfl
  | start tx =>
    rw [Writer.step]
    split <;> exact hsame rfl rfl
  | insert tx row =>
    rw [Writer.step]
    split
    · split <;> exact hsame rfl rfl
    · exact hsame rfl rfl
  | check tx =>
    rw [Writer.step]
    split
    · rw [Writer.checkNext]
      split
      · exact hsame rfl rfl
      · split <;> exact hsame rfl rfl
    · exact hsame rfl rfl
  | commit tx =>
    rw [Writer.step]
    split
    · split
      · exact ⟨rfl, .inr ⟨_, rfl⟩⟩
      · exact hsame rfl rfl
    · exact hsame rfl rfl
  | rollback tx => exact hsame rfl rfl

namespace Cluster

variable {s : Cluster} {p : Nat} {pod : Pod} {epoch : Uuid} {entry : TokenEntry} {rotated : Bool}

theorem Apart.setPod (h : s.Apart)
    (hpod : ∀ rotated epoch entry, pod.probe ≠ .beaten rotated epoch entry) :
    (s.setPod p pod).Apart := by
  refine ⟨h.counting, h.records, h.restores, h.rising, h.known, fun q rotated epoch entry hq => ?_⟩
  by_cases hqp : q = p
  · simp only [Cluster.setPod, if_pos hqp] at hq
    exact absurd hq (hpod rotated epoch entry)
  · have hsame : (s.setPod p pod).pods q = s.pods q := if_neg hqp
    rw [hsame] at hq
    rw [Awaited, Detects, hsame]
    exact h.awaited q rotated epoch entry hq

theorem Apart.setProbe_beaten (h : s.Apart) (hawaited : s.Awaited p epoch entry.token) :
    (s.setProbe p (.beaten rotated epoch entry)).Apart := by
  refine ⟨h.counting, h.records, h.restores, h.rising, h.known, fun q rotated' epoch' entry' hq => ?_⟩
  have hfence : ((s.setProbe p (.beaten rotated epoch entry)).pods q).fence = (s.pods q).fence := by
    simp only [Cluster.setProbe, Cluster.setPod]
    split
    · next hqp => rw [hqp]
    · rfl
  rw [Awaited, Detects, hfence]
  by_cases hqp : q = p
  · simp only [Cluster.setProbe, Cluster.setPod, if_pos hqp] at hq
    cases hq
    subst hqp
    exact hawaited
  · simp only [Cluster.setProbe, Cluster.setPod, if_neg hqp] at hq
    exact h.awaited q rotated' epoch' entry' hq

theorem Apart.goOn (h : s.Apart) {w : Writer} {c : Commit} (hseed : w.seed = s.writer.seed)
    (hlog : w.log = s.writer.log ++ [c])
    (hc : ∀ token epoch, c = .beat token epoch → token = s.writer.current.token + 1) :
    ({ s with writer := w } : Cluster).Apart := by
  refine ⟨fun log hmem => ?_, h.records, h.restores, h.rising, fun r hr => ?_,
    fun q rotated epoch entry hq => ?_⟩
  · rw [hseed]
    rcases List.mem_cons.1 hmem with rfl | hmem
    · rw [hlog]
      exact (h.counting _ List.mem_cons_self).concat hc
    · exact h.counting log (List.mem_cons_of_mem _ hmem)
  · obtain ⟨log, hmem, hbeat⟩ := h.known r hr
    rcases List.mem_cons.1 hmem with rfl | hmem
    · exact ⟨_, List.mem_cons_self, hlog ▸ List.mem_append_left _ hbeat⟩
    · exact ⟨log, List.mem_cons_of_mem _ hmem, hbeat⟩
  · refine (h.awaited q rotated epoch entry hq).imp_right fun ⟨hbeyond, hbeat, hbelow⟩ => ?_
    exact ⟨hbeyond, hlog ▸ List.mem_append_left _ hbeat, hbelow⟩

theorem Apart.writer (h : s.Apart) (c : WriterCall) :
    ({ s with writer := s.writer.step c } : Cluster).Apart := by
  obtain ⟨hseed, hlog | ⟨rows, hlog⟩⟩ := s.writer.step_log c
  · refine ⟨?_, h.records, h.restores, h.rising, ?_, fun q rotated epoch entry hq => ?_⟩
    · simp only [hseed, hlog]
      exact h.counting
    · simp only [hlog]
      exact h.known
    · simp only [Awaited, hlog]
      exact h.awaited q rotated epoch entry hq
  · exact h.goOn hseed hlog fun _ _ hbeat => by cases hbeat

theorem Apart.commitBeat (h : s.Apart) {wall : Int}
    (hnext : s.Detects p epoch (s.writer.current.token + 1) ∨
      s.Beyond epoch (s.writer.current.token + 1) ∧ ∀ r ∈ s.records, r.epoch = epoch →
        r.entry.token < s.writer.current.token + 1) :
    (s.commitBeat p rotated epoch wall).Apart := by
  have hgo : ({ s with writer := s.writer.beat epoch } : Cluster).Apart :=
    h.goOn rfl rfl fun _ _ hbeat => by cases hbeat; rfl
  refine hgo.setProbe_beaten (hnext.imp_right fun ⟨hbeyond, hbelow⟩ =>
    ⟨hbeyond, ?_, fun r hr _ => hbelow r hr⟩)
  exact List.mem_append_right _ (List.mem_singleton_self _)

theorem Apart.below (h : s.Apart)
    (hbeyond : s.Beyond s.writer.current.epoch (s.writer.current.token + 1)) :
    ∀ r ∈ s.records, r.epoch = s.writer.current.epoch →
      r.entry.token < s.writer.current.token + 1 := by
  intro r hr hepoch
  obtain ⟨log, hmem, hbeat⟩ := h.known r hr
  rcases List.mem_cons.1 hmem with rfl | habandoned
  · exact Nat.lt_succ_of_le ((h.counting _ hmem).token_le hbeat)
  · exact hbeyond log habandoned _ (hepoch ▸ hbeat)

theorem Apart.rotate (h : s.Apart) {wall : Int} (hfresh : s.fresh epoch = true) :
    (s.commitBeat p true epoch wall).Apart := by
  simp only [fresh, Bool.and_eq_true, decide_eq_true_eq, List.all_eq_true] at hfresh
  have hnone : ∀ log ∈ s.writer.log :: s.abandoned, ∀ t, .beat t epoch ∉ log :=
    fun log hlog t hmem => by simpa using hfresh.2 log hlog _ hmem
  refine h.commitBeat (.inr ⟨fun log hlog t hmem => ?_, fun r hr hepoch => ?_⟩)
  · exact absurd hmem (hnone log (List.mem_cons_of_mem _ hlog) t)
  · obtain ⟨log, hlog, hbeat⟩ := h.known r hr
    exact absurd (hepoch ▸ hbeat) (hnone log hlog _)

theorem Detects.regression (h : s.Detects p epoch entry.token) :
    ((s.pods p).fence.record epoch entry).2 = .tokenRegression := by
  obtain ⟨hepoch, last, hlast, htoken⟩ := h
  rw [ReplicaFence.record, if_neg (not_not_intro hepoch), if_pos]
  rw [hlast]
  simpa using htoken

theorem Apart.addRecord (h : s.Apart)
    (hpod : ∀ rotated epoch entry, (s.pods p).probe ≠ .beaten rotated epoch entry)
    (hbeyond : s.Beyond epoch entry.token) (hbeat : .beat entry.token epoch ∈ s.writer.log)
    (hhigher : ∀ r ∈ s.records, r.pod = p → r.epoch = epoch → r.entry.token < entry.token) :
    ({ s with records := s.records ++ [⟨p, s.abandoned.length, epoch, entry⟩] } : Cluster).Apart := by
  refine ⟨h.counting, ?_, ?_, ?_, ?_, fun q rotated' epoch' entry' hq => ?_⟩
  · intro r hr i log hi hlt
    rcases List.mem_append.1 hr with hr | hr
    · exact h.records r hr i log hi hlt
    · cases List.mem_singleton.1 hr
      exact hbeyond log (List.mem_of_getElem? hi)
  · intro r hr
    rcases List.mem_append.1 hr with hr | hr
    · exact h.restores r hr
    · cases List.mem_singleton.1 hr
      exact le_rfl
  · refine List.pairwise_append.2 ⟨h.rising, List.pairwise_singleton _ _, fun r hr r' hr' => ?_⟩
    cases List.mem_singleton.1 hr'
    exact hhigher r hr
  · intro r hr
    rcases List.mem_append.1 hr with hr | hr
    · exact h.known r hr
    · cases List.mem_singleton.1 hr
      exact ⟨_, List.mem_cons_self, hbeat⟩
  · refine (h.awaited q rotated' epoch' entry' hq).imp_right fun ⟨hbeyond', hbeat', hbelow⟩ => ?_
    refine ⟨hbeyond', hbeat', fun r hr hpod' hepoch => ?_⟩
    rcases List.mem_append.1 hr with hr | hr
    · exact hbelow r hr hpod' hepoch
    · cases List.mem_singleton.1 hr
      have hqp : p = q := hpod'
      subst hqp
      exact absurd hq (hpod rotated' epoch' entry')

theorem Apart.recordEntry (h : s.Apart) (hprobe : (s.pods p).probe = .beaten rotated epoch entry) :
    (s.recordEntry p rotated epoch entry).Apart := by
  rw [Cluster.recordEntry]
  split
  · next fence hrecord =>
    rcases h.awaited p rotated epoch entry hprobe with hdetects | ⟨hbeyond, hbeat, hhigher⟩
    · have hregression := hdetects.regression
      rw [hrecord] at hregression
      cases hregression
    · have hidle : (s.setPod p ⟨fence, .idle⟩).Apart := h.setPod fun _ _ _ hbeaten => by cases hbeaten
      refine hidle.addRecord (fun _ _ _ hbeaten => ?_) hbeyond hbeat hhigher
      simp only [Cluster.setPod, if_pos] at hbeaten
      cases hbeaten
  · next fence hrecord =>
    refine h.setPod fun _ _ _ hbeaten => ?_
    split at hbeaten <;> cases hbeaten

theorem Apart.restore (h : s.Apart) {timeline length : Nat}
    (hsteady : s.Steady (.restore timeline length)) : (s.step (.restore timeline length)).Apart := by
  rw [Cluster.step]
  split
  · next log hlog =>
    have hall {l : List Commit} (hl : l ∈ s.abandoned ++ [s.writer.log]) :
        l ∈ s.writer.log :: s.abandoned :=
      (List.mem_append.1 hl).elim (List.mem_cons_of_mem _) fun h =>
        List.mem_singleton.1 h ▸ List.mem_cons_self
    refine ⟨fun l hl => ?_, fun r hr i l hi hlt => ?_, fun r hr => ?_, h.rising, fun r hr => ?_,
      fun q rotated epoch entry hq => .inl (hsteady q rotated epoch entry hq)⟩
    · rcases List.mem_cons.1 hl with rfl | hl
      · exact (h.counting log (hall (List.mem_of_getElem? hlog))).take length
      · exact h.counting l (hall hl)
    · rw [List.getElem?_append_left (Nat.lt_of_lt_of_le hlt (h.restores r hr))] at hi
      exact h.records r hr i l hi hlt
    · rw [List.length_append]
      exact (h.restores r hr).trans (Nat.le_add_right _ _)
    · obtain ⟨l, hl, hbeat⟩ := h.known r hr
      refine ⟨l, List.mem_cons_of_mem _ ?_, hbeat⟩
      rcases List.mem_cons.1 hl with rfl | hl
      · exact List.mem_append_right _ (List.mem_singleton_self _)
      · exact List.mem_append_left _ hl
  · exact h

theorem Apart.step (h : s.Apart) {c : Call} (hsteady : s.Steady c) : (s.step c).Apart := by
  have hsetProbe {p : Nat} {probe : Probe}
      (hprobe : ∀ rotated epoch entry, probe ≠ .beaten rotated epoch entry) :
      (s.setProbe p probe).Apart := h.setPod hprobe
  cases c with
  | writer c => exact h.writer c
  | sample p =>
    rw [Cluster.step]
    split
    · exact hsetProbe fun _ _ _ hbeaten => by cases hbeaten
    · exact h
  | scan p others =>
    rw [Cluster.step]
    split
    · exact hsetProbe fun _ _ _ hbeaten => by cases hbeaten
    · exact h
  | beat p =>
    rw [Cluster.step]
    split
    · next at_ oldest hprobe =>
      exact h.commitBeat ((hsteady at_ oldest hprobe).symm.imp_right fun hbeyond =>
        ⟨hbeyond, h.below hbeyond⟩)
    · exact h
  | record p =>
    rw [Cluster.step]
    split
    · next hprobe => exact h.recordEntry hprobe
    · exact h
  | rotate p epoch =>
    rw [Cluster.step]
    split
    · split
      · next hfresh => exact h.rotate hfresh
      · exact h
    · exact h
  | fail p => exact h.setPod fun _ _ _ hbeaten => by cases hbeaten
  | restore timeline length => exact h.restore hsteady

theorem start_apart (now : Int) (seed : Uuid) : (Cluster.start now seed).Apart := by
  refine ⟨fun log hlog => ?_, fun _ hr => ?_, fun _ hr => ?_, .nil, fun _ hr => ?_,
    fun _ _ _ _ hprobe => ?_⟩
  · rw [List.mem_singleton.1 hlog]
    exact fun _ _ _ hj => by cases hj
  all_goals first | cases hr | cases hprobe

end Cluster

/-- In a run all of whose steps are steady, no heartbeat of a timeline that a restore has left
resolves to an entry that was recorded after that restore, and the tokens that a pod records
under one epoch rise. -/
theorem run_restored (now : Int) (seed : Uuid) (calls : List Call)
    (hsteady : Along Cluster.step Cluster.Steady (Cluster.start now seed) calls) :
    let s := runFrom Cluster.step (Cluster.start now seed) calls
    (∀ i timeline k p entry, s.abandoned[i]? = some timeline →
      (s.pods p).fence.resolve (heartbeat s.writer.seed (timeline.take k)).token
          (heartbeat s.writer.seed (timeline.take k)).epoch = .proved entry →
        ∀ r ∈ s.records, r.pod = p → r.epoch = (heartbeat s.writer.seed (timeline.take k)).epoch →
          r.entry = entry → r.restores ≤ i) ∧
      s.records.Pairwise fun r r' => r.pod = r'.pod → r.epoch = r'.epoch →
        r.entry.token < r'.entry.token := by
  intro s
  have hapart : s.Apart :=
    hsteady.preserves (fun _ _ h hc => h.step hc) (Cluster.start_apart now seed)
  refine ⟨fun i timeline k p entry hi hresolve r hr _ hepoch hentry => ?_, hapart.rising⟩
  obtain ⟨-, htoken, -⟩ := ReplicaFence.resolve_proved hresolve
  by_contra hlate
  rcases mem_heartbeat s.writer.seed (timeline.take k) with hseed | hbeat
  · obtain ⟨log, hlog, hmem⟩ := hapart.known r hr
    have hpos := (hapart.counting log hlog).token_pos hmem
    rw [hseed, ← hentry] at htoken
    exact absurd htoken (Nat.not_le_of_lt hpos)
  · have hlt := hapart.records r hr i timeline hi (Nat.lt_of_not_le hlate) _
      (hepoch ▸ List.mem_of_mem_take hbeat)
    rw [hentry] at hlt
    exact absurd htoken (Nat.not_le_of_lt hlt)

def probed : List Call :=
  [.writer (.tick 1000000), .sample 0, .scan 0 none, .beat 0, .record 0]

/-- Three probes; the writer is lost, which closes the fence, comes back as it was after the
first of them, and is probed again. -/
def outage : List Call :=
  probed ++ probed ++ probed ++ [.fail 0, .restore 0 1] ++ probed

theorem outage_proved :
    let s := runFrom Cluster.step (Cluster.start (seconds 2000) ⟨7⟩) outage
    s.abandoned.map (heartbeat ⟨7⟩) = [⟨3, ⟨7⟩⟩] ∧
      (s.pods 0).fence.resolve 3 ⟨7⟩ = .proved ⟨2, seconds 2004, seconds 1039⟩ ∧
      s.records.map (fun r => (r.restores, r.epoch, r.entry.token)) =
        [(0, ⟨7⟩, 1), (0, ⟨7⟩, 2), (0, ⟨7⟩, 3), (1, ⟨7⟩, 2)] := by
  decide +kernel

/-- The same restore while the fence is open: the regression shows, and the epoch is rotated. A
restore of the rotation itself leaves nothing behind, and the next probe goes on from it. -/
def rewound : List Call :=
  probed ++ probed ++ [.restore 0 1] ++ probed ++ [.rotate 0 ⟨8⟩, .record 0, .restore 1 3] ++ probed

theorem rewound_steady :
    Along Cluster.step Cluster.Steady (Cluster.start (seconds 2000) ⟨7⟩) rewound := by
  have hbeyond {s : Cluster} {p : Nat}
      (h : ∀ log ∈ s.abandoned, ∀ c ∈ log, (Commit.apply s.writer.current c).epoch =
        s.writer.current.epoch → (Commit.apply s.writer.current c).token ≤ s.writer.current.token) :
      s.Steady (.beat p) :=
    fun _ _ _ => .inl fun log hlog _ hbeat => Nat.lt_succ_of_le (h log hlog _ hbeat rfl)
  have hidle {s : Cluster} (h : (s.pods 0).probe = .idle) (hrest : ∀ p, (s.pods (p + 1)).probe = .idle)
      {timeline length : Nat} : s.Steady (.restore timeline length) := by
    intro p rotated epoch entry hbeaten
    cases p with
    | zero => cases h.symm.trans hbeaten
    | succ p => cases (hrest p).symm.trans hbeaten
  refine ⟨trivial, trivial, trivial, hbeyond (by decide +kernel), trivial, trivial, trivial, trivial,
    hbeyond (by decide +kernel), trivial, hidle rfl fun _ => rfl, trivial, trivial, trivial,
    fun _ _ _ => .inr ?_, trivial, trivial, trivial, hidle rfl fun _ => rfl, trivial, trivial, trivial,
    hbeyond (by decide +kernel), trivial, trivial⟩
  exact ⟨by decide +kernel, ⟨2, seconds 2002, seconds 1037⟩, by decide +kernel, by decide +kernel⟩

theorem run_restored_rewound :
    let s := runFrom Cluster.step (Cluster.start (seconds 2000) ⟨7⟩) rewound
    s.records.map (fun r => (r.restores, r.epoch, r.entry.token)) =
        [(0, ⟨7⟩, 1), (0, ⟨7⟩, 2), (1, ⟨8⟩, 3), (2, ⟨8⟩, 4)] ∧
      s.records.Pairwise fun r r' => r.pod = r'.pod → r.epoch = r'.epoch →
        r.entry.token < r'.entry.token :=
  ⟨by decide +kernel, (run_restored (seconds 2000) ⟨7⟩ rewound rewound_steady).2⟩

end Colony.Replica
