import Colony.Defs.Replica.Fence
import Colony.Defs.Data.Run
import Mathlib.Data.Int.Order.Basic

namespace Colony.Replica

open Colony.Core Colony.Data

structure Writer.Clear (w : Writer) (wall : Int) : Prop where
  now : wall < w.now - createdAtFloor
  open_ : ∀ tx t, w.open_.lookup tx = some t → wall < t.start - createdAtFloor

structure Writer.Sealed (w : Writer) (wall : Int) (i : Nat) : Prop where
  clear : w.Clear wall
  rows : ∀ row ∈ rowsOf (w.log.drop i), row.channel.isSome → wall < row.createdAt

structure OpenTx.Fine (t : OpenTx) (now : Int) : Prop where
  start : t.start ≤ now
  checked : ∀ row ∈ t.checked, row.channel.isSome → t.start - createdAtFloor ≤ row.createdAt

def Counting (seed : Uuid) (log : List Commit) : Prop :=
  ∀ j token epoch, log[j]? = some (.beat token epoch) →
    token = (heartbeat seed (log.take j)).token + 1

structure Writer.Sound (w : Writer) : Prop where
  open_ : ∀ tx t, w.open_.lookup tx = some t → t.Fine w.now
  counting : Counting w.seed w.log

section Log

variable {seed : Uuid} {log : List Commit}

theorem heartbeat_concat (c : Commit) :
    heartbeat seed (log ++ [c]) = c.apply (heartbeat seed log) := by
  simp [heartbeat]

theorem rowsOf_append (more : List Commit) : rowsOf (log ++ more) = rowsOf log ++ rowsOf more :=
  List.flatMap_append

theorem Counting.concat (h : Counting seed log) {c : Commit}
    (hc : ∀ token epoch, c = .beat token epoch → token = (heartbeat seed log).token + 1) :
    Counting seed (log ++ [c]) := by
  intro j token epoch hj
  rcases Nat.lt_or_ge j log.length with hlt | hge
  · rw [List.getElem?_append_left hlt] at hj
    rw [List.take_append_of_le_length hlt.le]
    exact h j token epoch hj
  · rw [List.getElem?_append_right hge] at hj
    rw [List.getElem?_singleton] at hj
    split at hj
    · next hzero =>
      rw [show j = log.length by omega, List.take_left]
      exact hc token epoch (Option.some.inj hj)
    · cases hj

theorem Counting.mono (h : Counting seed log) {k j : Nat} (hkj : k ≤ j) :
    (heartbeat seed (log.take k)).token ≤ (heartbeat seed (log.take j)).token := by
  induction j, hkj using Nat.le_induction with
  | base => exact le_rfl
  | succ j _ ih =>
    refine ih.trans ?_
    cases hj : log[j]? with
    | none =>
      rw [List.getElem?_eq_none_iff] at hj
      rw [List.take_of_length_le hj, List.take_of_length_le (hj.trans j.le_succ)]
    | some c =>
      rw [List.take_add_one, hj, Option.toList_some, heartbeat_concat]
      cases c with
      | rows _ => exact le_rfl
      | beat token epoch => exact (h j token epoch hj).symm ▸ Nat.le_succ _

theorem Counting.lt_of_token_le (h : Counting seed log) {j k token : Nat} {epoch : Uuid}
    (hj : log[j]? = some (.beat token epoch))
    (htoken : token ≤ (heartbeat seed (log.take k)).token) : j < k := by
  by_contra hle
  have hmono := h.mono (Nat.le_of_not_lt hle)
  have hnext := h j token epoch hj
  omega

end Log

def OpenTx.Continues (w : Writer) (tx : Nat) (t : OpenTx) : Prop :=
  t.start = w.now ∨ ∃ t₀, w.open_.lookup tx = some t₀ ∧ t.start = t₀.start

structure Writer.Follows (w w' : Writer) : Prop where
  seed : w'.seed = w.seed
  now : w.now ≤ w'.now
  open_ : ∀ tx t, w'.open_.lookup tx = some t → t.Fine w'.now ∧ t.Continues w tx
  log : w'.log = w.log ∨
    (∃ tx t, w.open_.lookup tx = some t ∧ w'.log = w.log ++ [.rows t.checked]) ∨
    ∃ epoch, w'.log = w.log ++ [.beat (w.current.token + 1) epoch]

section Writer

variable {w w' : Writer} {wall : Int} {i : Nat} {tx : Nat} {t : OpenTx}

theorem OpenTx.Fine.later {now now' : Int} (h : t.Fine now) (hnow : now ≤ now') : t.Fine now' :=
  ⟨h.start.trans hnow, h.checked⟩

theorem Writer.Sound.kept (h : w.Sound) (ht : w.open_.lookup tx = some t) :
    t.Fine w.now ∧ t.Continues w tx := ⟨h.open_ tx t ht, .inr ⟨t, ht, rfl⟩⟩

theorem Writer.Sound.erase (h : w.Sound) (tx : Nat) :
    ∀ tx' t, (w.open_.erase tx).lookup tx' = some t → t.Fine w.now ∧ t.Continues w tx' := by
  intro tx' t ht
  rw [Dict.lookup_erase_if] at ht
  split at ht
  · cases ht
  · exact h.kept ht

theorem Writer.Sound.insert (h : w.Sound) (ht : t.Fine w.now ∧ t.Continues w tx) :
    ∀ tx' t', (w.open_.insert tx t).lookup tx' = some t' → t'.Fine w.now ∧ t'.Continues w tx' := by
  intro tx' t' ht'
  rw [Dict.lookup_insert_if] at ht'
  split at ht'
  · next heq =>
    cases ht'
    exact heq ▸ ht
  · exact h.kept ht'

theorem Writer.Follows.refl (h : w.Sound) : w.Follows w :=
  ⟨rfl, le_rfl, fun _ _ => h.kept, .inl rfl⟩

theorem Writer.checkNext_follows (h : w.Sound) (ht : w.open_.lookup tx = some t) :
    w.Follows (w.checkNext tx t) := by
  obtain ⟨hfine, hcontinues⟩ := h.kept ht
  rw [Writer.checkNext]
  split
  · exact ⟨rfl, le_rfl, h.insert ⟨⟨hfine.start, hfine.checked⟩, hcontinues⟩, .inl rfl⟩
  · next row rest hrows =>
    split
    · exact ⟨rfl, le_rfl, h.erase tx, .inl rfl⟩
    · next hfresh =>
      refine ⟨rfl, le_rfl, h.insert ⟨⟨hfine.start, fun row' hrow' hchannel => ?_⟩, hcontinues⟩, .inl rfl⟩
      rcases List.mem_append.1 hrow' with hrow' | hrow'
      · exact hfine.checked row' hrow' hchannel
      · cases List.mem_singleton.1 hrow'
        rw [Writer.tooOld, hchannel, Bool.true_and, decide_eq_true_eq, not_lt] at hfresh
        have hstart := hfine.start
        exact le_trans (by simp only; omega) hfresh

theorem Writer.step_follows (h : w.Sound) (c : WriterCall) : w.Follows (w.step c) := by
  cases c with
  | tick n =>
    have hnow : w.now ≤ w.now + n := by omega
    exact ⟨rfl, hnow, fun tx t ht => ⟨(h.kept ht).1.later hnow, (h.kept ht).2⟩, .inl rfl⟩
  | start tx =>
    rw [Writer.step]
    split
    · exact .refl h
    · exact ⟨rfl, le_rfl, h.insert ⟨⟨le_rfl, fun _ hrow => (nomatch hrow)⟩, .inl rfl⟩, .inl rfl⟩
  | insert tx row =>
    rw [Writer.step]
    split
    · next t ht =>
      obtain ⟨hfine, hcontinues⟩ := h.kept ht
      split
      · exact .refl h
      · exact ⟨rfl, le_rfl, h.insert ⟨⟨hfine.start, hfine.checked⟩, hcontinues⟩, .inl rfl⟩
    · exact .refl h
  | check tx =>
    rw [Writer.step]
    split
    · next t ht => exact Writer.checkNext_follows h ht
    · exact .refl h
  | commit tx =>
    rw [Writer.step]
    split
    · next t ht =>
      split
      · exact ⟨rfl, le_rfl, h.erase tx, .inr (.inl ⟨tx, t, ht, rfl⟩)⟩
      · exact .refl h
    · exact .refl h
  | rollback tx => exact ⟨rfl, le_rfl, h.erase tx, .inl rfl⟩

theorem Writer.beat_follows (h : w.Sound) (epoch : Uuid) : w.Follows (w.beat epoch) :=
  ⟨rfl, le_rfl, fun _ _ => h.kept, .inr (.inr ⟨epoch, rfl⟩)⟩

namespace Writer.Follows

theorem sound (hf : w.Follows w') (h : w.Sound) : w'.Sound := by
  refine ⟨fun tx t ht => (hf.open_ tx t ht).1, ?_⟩
  rw [hf.seed]
  rcases hf.log with hlog | ⟨tx, t, -, hlog⟩ | ⟨epoch, hlog⟩
  · exact hlog ▸ h.counting
  · rw [hlog]
    exact h.counting.concat fun _ _ hc => (nomatch hc)
  · rw [hlog]
    refine h.counting.concat fun token epoch' hc => ?_
    cases hc
    rfl

theorem log_append (hf : w.Follows w') : ∃ more, w'.log = w.log ++ more := by
  rcases hf.log with hlog | ⟨tx, t, -, hlog⟩ | ⟨epoch, hlog⟩
  · exact ⟨[], by simp [hlog]⟩
  · exact ⟨_, hlog⟩
  · exact ⟨_, hlog⟩

theorem clear (hf : w.Follows w') (h : w.Clear wall) : w'.Clear wall := by
  have hnow := hf.now
  have hwall := h.now
  refine ⟨by omega, fun tx t ht => ?_⟩
  rcases (hf.open_ tx t ht).2 with hstart | ⟨t₀, ht₀, hstart⟩
  · rw [hstart]
    exact hwall
  · rw [hstart]
    exact h.open_ tx t₀ ht₀

theorem sealed (hf : w.Follows w') (hw : w.Sound) (h : w.Sealed wall i) (hi : i ≤ w.log.length) :
    w'.Sealed wall i := by
  refine ⟨hf.clear h.clear, fun row hrow hchannel => ?_⟩
  rcases hf.log with hlog | ⟨tx, t, ht, hlog⟩ | ⟨epoch, hlog⟩
  · exact h.rows row (hlog ▸ hrow) hchannel
  · rw [hlog, List.drop_append_of_le_length hi, rowsOf_append] at hrow
    rcases List.mem_append.1 hrow with hrow | hrow
    · exact h.rows row hrow hchannel
    · have hmem : row ∈ t.checked := by simpa [rowsOf, Commit.inserted] using hrow
      have hwall := h.clear.open_ tx t ht
      have hrow := (hw.open_ tx t ht).checked row hmem hchannel
      omega
  · rw [hlog, List.drop_append_of_le_length hi, rowsOf_append] at hrow
    exact h.rows row (by simpa [rowsOf, Commit.inserted] using hrow) hchannel

end Writer.Follows

end Writer

/-- The heartbeat of an entry was committed, and nothing at or under its wall after that. -/
def TokenEntry.Proved (w : Writer) (entry : TokenEntry) : Prop :=
  ∃ j epoch, w.log[j]? = some (.beat entry.token epoch) ∧ w.Sealed entry.fenceWall j

def Probe.Backed (w : Writer) : Probe → Prop
  | .idle => True
  | .sampled at_ => at_ ≤ w.now
  | .scanned at_ oldest => w.Clear (fenceWall at_ oldest)
  | .beaten _ _ entry => entry.Proved w
  | .regressed wall => w.Clear wall

structure Pod.Backed (w : Writer) (pod : Pod) : Prop where
  ring : ∀ entry ∈ pod.fence.ring, entry.Proved w
  probe : pod.probe.Backed w

structure Cluster.Sound (s : Cluster) : Prop where
  writer : s.writer.Sound
  pods : ∀ p, (s.pods p).Backed s.writer

section Entries

variable {w w' : Writer} {entry : TokenEntry} {probe : Probe} {pod : Pod} {fence : ReplicaFence}

theorem TokenEntry.Proved.follow (h : entry.Proved w) (hw : w.Sound) (hf : w.Follows w') :
    entry.Proved w' := by
  obtain ⟨j, epoch, hj, hsealed⟩ := h
  have hlt : j < w.log.length := (List.getElem?_eq_some_iff.1 hj).1
  obtain ⟨more, hlog⟩ := hf.log_append
  refine ⟨j, epoch, ?_, hf.sealed hw hsealed hlt.le⟩
  rw [hlog, List.getElem?_append_left hlt]
  exact hj

theorem Probe.Backed.follow (h : probe.Backed w) (hw : w.Sound) (hf : w.Follows w') :
    probe.Backed w' := by
  cases probe with
  | idle => trivial
  | sampled at_ => exact h.trans hf.now
  | scanned at_ oldest => exact hf.clear h
  | beaten rotated epoch entry => exact TokenEntry.Proved.follow h hw hf
  | regressed wall => exact hf.clear h

theorem Pod.Backed.follow (h : pod.Backed w) (hw : w.Sound) (hf : w.Follows w') : pod.Backed w' :=
  ⟨fun entry hentry => (h.ring entry hentry).follow hw hf, h.probe.follow hw hf⟩

namespace ReplicaFence

theorem mem_pushBack {ring : List TokenEntry} {e : TokenEntry} (h : e ∈ pushBack ring entry) :
    e = entry ∨ e ∈ ring := by
  rcases List.mem_append.1 h with h | h
  · split at h
    · exact .inr (List.mem_of_mem_tail h)
    · exact .inr h
  · exact .inl (List.mem_singleton.1 h)

theorem mem_record {epoch : Uuid} {e : TokenEntry} (h : e ∈ (fence.record epoch entry).1.ring) :
    e = entry ∨ e ∈ fence.ring := by
  rw [record] at h
  split at h
  · rcases mem_pushBack h with h | h
    · exact .inl h
    · cases h
  · split at h
    · cases h
    · exact mem_pushBack h

theorem resolve_proved {token : Nat} {epoch : Uuid}
    (h : fence.resolve token epoch = .proved entry) :
    entry ∈ fence.ring ∧ entry.token ≤ token ∧ ∀ e, fence.epoch = some e → e = epoch := by
  rw [resolve] at h
  split at h
  · cases h
  · next hepoch =>
    split at h
    · next found hfound =>
      cases h
      refine ⟨List.mem_reverse.1 (List.mem_of_find?_eq_some hfound), ?_, fun e he => ?_⟩
      · simpa using List.find?_some hfound
      · simpa [he] using hepoch
    · cases h

end ReplicaFence

theorem fenceWall_le (sampledAt : Int) (oldest : Option Int) :
    fenceWall sampledAt oldest ≤ sampledAt - createdAtFloor - fenceClockMargin ∧
      ∀ m, oldest = some m → fenceWall sampledAt oldest ≤ m - createdAtFloor - fenceClockMargin := by
  cases oldest with
  | none => exact ⟨le_rfl, fun m hm => (nomatch hm)⟩
  | some oldest =>
    refine ⟨?_, fun m hm => ?_⟩
    · simp only [fenceWall]
      omega
    · cases hm
      simp only [fenceWall]
      omega

theorem leastTime_le {a b : Option Int} {x : Int} (h : a = some x) :
    ∃ m, leastTime a b = some m ∧ m ≤ x := by
  subst h
  cases b with
  | none => exact ⟨x, rfl, le_rfl⟩
  | some y => exact ⟨min x y, rfl, min_le_left x y⟩

theorem Writer.oldestXactStart_le {tx : Nat} {t : OpenTx} (ht : w.open_.lookup tx = some t) :
    ∃ m, w.oldestXactStart = some m ∧ m ≤ t.start := by
  have hmem : t.start ∈ w.open_.entries.map fun e => e.2.start :=
    List.mem_map.2 ⟨⟨tx, t⟩, (Dict.mem_lookup_entries _ _ _).1 ht, rfl⟩
  rw [Writer.oldestXactStart]
  cases hmin : (w.open_.entries.map fun e => e.2.start).min? with
  | none => rw [List.min?_eq_none_iff.1 hmin] at hmem; cases hmem
  | some m => exact ⟨m, rfl, (List.min?_eq_some_iff.1 hmin).2 _ hmem⟩

theorem fenceClockMargin_pos : 0 < fenceClockMargin := by decide

theorem Writer.clear_scanned {at_ : Int} (h : at_ ≤ w.now) (others : Option Int) :
    w.Clear (fenceWall at_ (leastTime w.oldestXactStart others)) := by
  have hmargin := fenceClockMargin_pos
  obtain ⟨hsampled, holdest⟩ := fenceWall_le at_ (leastTime w.oldestXactStart others)
  refine ⟨by omega, fun tx t ht => ?_⟩
  obtain ⟨m, hm, hmt⟩ := Writer.oldestXactStart_le ht
  obtain ⟨m', hm', hm'm⟩ := leastTime_le (b := others) hm
  have hwall := holdest m' hm'
  omega

theorem Writer.beat_proved {wall : Int} (hw : w.Sound) (h : w.Clear wall) (epoch : Uuid) (at_ : Int) :
    (⟨w.current.token + 1, at_, wall⟩ : TokenEntry).Proved (w.beat epoch) := by
  refine ⟨w.log.length, epoch, ?_, (Writer.beat_follows hw epoch).clear h, fun row hrow => ?_⟩
  · simp [Writer.beat]
  · simp [Writer.beat, rowsOf, Commit.inserted] at hrow

end Entries

def Call.isRestore : Call → Bool
  | .restore _ _ => true
  | _ => false

namespace Cluster

variable {s : Cluster} {p : Nat} {pod : Pod} {c : Call}

theorem Sound.backed (h : s.Sound) {probe : Probe} (hprobe : (s.pods p).probe = probe) :
    probe.Backed s.writer := hprobe ▸ (h.pods p).probe

theorem Sound.setPod (h : s.Sound) (hpod : pod.Backed s.writer) : (s.setPod p pod).Sound := by
  refine ⟨h.writer, fun q => ?_⟩
  simp only [Cluster.setPod]
  split
  · exact hpod
  · exact h.pods q

theorem Sound.setProbe (h : s.Sound) {probe : Probe} (hprobe : probe.Backed s.writer) :
    (s.setProbe p probe).Sound := h.setPod ⟨(h.pods p).ring, hprobe⟩

theorem Sound.follow (h : s.Sound) {w : Writer} (hf : s.writer.Follows w) :
    ({ s with writer := w } : Cluster).Sound :=
  ⟨hf.sound h.writer, fun q => (h.pods q).follow h.writer hf⟩

theorem Sound.commitBeat (h : s.Sound) {wall : Int} (hwall : s.writer.Clear wall) (rotated : Bool)
    (epoch : Uuid) : (s.commitBeat p rotated epoch wall).Sound :=
  (h.follow (Writer.beat_follows h.writer epoch)).setProbe
    (Writer.beat_proved h.writer hwall epoch s.writer.now)

theorem Sound.recordEntry (h : s.Sound) {rotated : Bool} {epoch : Uuid} {entry : TokenEntry}
    (hentry : entry.Proved s.writer) : (s.recordEntry p rotated epoch entry).Sound := by
  have hring (fence : ReplicaFence) (outcome : RecordOutcome)
      (hrecord : (s.pods p).fence.record epoch entry = (fence, outcome)) :
      ∀ e ∈ fence.ring, e.Proved s.writer := fun e he => by
    have hmem : e ∈ ((s.pods p).fence.record epoch entry).1.ring := by rw [hrecord]; exact he
    rcases ReplicaFence.mem_record hmem with rfl | he
    · exact hentry
    · exact (h.pods p).ring e he
  rw [Cluster.recordEntry]
  split
  · next fence hrecord =>
    have hset : (s.setPod p ⟨fence, .idle⟩).Sound := h.setPod ⟨hring _ _ hrecord, trivial⟩
    exact ⟨hset.writer, hset.pods⟩
  · next fence hrecord =>
    refine h.setPod ⟨hring _ _ hrecord, ?_⟩
    split
    · trivial
    · obtain ⟨j, epoch', -, hsealed⟩ := hentry
      exact hsealed.clear

theorem recordEntry_writer {rotated : Bool} {epoch : Uuid} {entry : TokenEntry} :
    (s.recordEntry p rotated epoch entry).writer = s.writer := by
  rw [Cluster.recordEntry]
  split <;> rfl

theorem Sound.step (h : s.Sound) (hc : c.isRestore = false) :
    (s.step c).Sound ∧ s.writer.Follows (s.step c).writer := by
  cases c with
  | writer c =>
    exact ⟨h.follow (Writer.step_follows h.writer c), Writer.step_follows h.writer c⟩
  | sample p =>
    rw [Cluster.step]
    split
    · exact ⟨h.setProbe le_rfl, .refl h.writer⟩
    · exact ⟨h, .refl h.writer⟩
  | scan p others =>
    rw [Cluster.step]
    split
    · next at_ hprobe =>
      exact ⟨h.setProbe (Writer.clear_scanned (h.backed hprobe) others), .refl h.writer⟩
    · exact ⟨h, .refl h.writer⟩
  | beat p =>
    rw [Cluster.step]
    split
    · next at_ oldest hprobe =>
      exact ⟨h.commitBeat (h.backed hprobe) _ _, Writer.beat_follows h.writer _⟩
    · exact ⟨h, .refl h.writer⟩
  | record p =>
    rw [Cluster.step]
    split
    · next rotated epoch entry hprobe =>
      refine ⟨h.recordEntry (h.backed hprobe), ?_⟩
      rw [recordEntry_writer]
      exact .refl h.writer
    · exact ⟨h, .refl h.writer⟩
  | rotate p epoch =>
    rw [Cluster.step]
    split
    · next wall hprobe =>
      split
      · exact ⟨h.commitBeat (h.backed hprobe) _ _, Writer.beat_follows h.writer _⟩
      · exact ⟨h, .refl h.writer⟩
    · exact ⟨h, .refl h.writer⟩
  | fail p => exact ⟨h.setPod ⟨fun _ he => (nomatch he), trivial⟩, .refl h.writer⟩
  | restore timeline length => cases hc

end Cluster

structure Writer.Leads (w w' : Writer) : Prop where
  seed : w'.seed = w.seed
  log : ∃ more, w'.log = w.log ++ more
  sealed : ∀ wall i, i ≤ w.log.length → w.Sealed wall i → w'.Sealed wall i

theorem Writer.Follows.leads {w w' : Writer} (hf : w.Follows w') (hw : w.Sound) : w.Leads w' :=
  ⟨hf.seed, hf.log_append, fun _ _ hi hsealed => hf.sealed hw hsealed hi⟩

theorem Writer.Leads.trans {w w' w'' : Writer} (h : w.Leads w') (h' : w'.Leads w'') : w.Leads w'' := by
  obtain ⟨more, hlog⟩ := h.log
  obtain ⟨more', hlog'⟩ := h'.log
  refine ⟨h'.seed.trans h.seed, ⟨more ++ more', by rw [hlog', hlog, List.append_assoc]⟩, fun wall i hi hsealed => ?_⟩
  refine h'.sealed wall i ?_ (h.sealed wall i hi hsealed)
  rw [hlog, List.length_append]
  omega

theorem Cluster.Sound.run {s : Cluster} (h : s.Sound) {calls : List Call}
    (hcalls : ∀ c ∈ calls, c.isRestore = false) :
    (runFrom Cluster.step s calls).Sound ∧ s.writer.Leads (runFrom Cluster.step s calls).writer := by
  induction calls generalizing s with
  | nil => exact ⟨h, rfl, ⟨[], by simp⟩, fun _ _ _ hsealed => hsealed⟩
  | cons c calls ih =>
    obtain ⟨hstep, hfollows⟩ := h.step (hcalls c List.mem_cons_self)
    obtain ⟨hrun, hleads⟩ := ih hstep fun c' hc' => hcalls c' (List.mem_cons_of_mem _ hc')
    exact ⟨hrun, (hfollows.leads h.writer).trans hleads⟩

theorem Cluster.start_sound (now : Int) (seed : Uuid) : (Cluster.start now seed).Sound :=
  ⟨⟨fun _ _ ht => (nomatch ht), fun _ _ _ hj => (nomatch hj)⟩,
    fun _ => ⟨fun _ he => (nomatch he), trivial⟩⟩

/-- A snapshot whose heartbeat resolves to a proved entry has every row of a channel at or
under its wall that the writer ever commits, whatever writers, probes and pods do before and
after. -/
theorem run_proved (now : Int) (seed : Uuid) (calls later : List Call)
    (hcalls : ∀ c ∈ calls ++ later, c.isRestore = false) (p k : Nat) (entry : TokenEntry) :
    let s := runFrom Cluster.step (Cluster.start now seed) calls
    let snapshot := s.writer.log.take k
    (s.pods p).fence.resolve (heartbeat seed snapshot).token (heartbeat seed snapshot).epoch =
        .proved entry →
      ∀ row ∈ rowsOf (runFrom Cluster.step s later).writer.log, row.channel.isSome →
        row.createdAt ≤ entry.fenceWall → row ∈ rowsOf snapshot := by
  intro s snapshot hresolve row hrow hchannel hwall
  obtain ⟨hsound, hstart⟩ := (Cluster.start_sound now seed).run fun c hc =>
    hcalls c (List.mem_append_left _ hc)
  have hcounting : Counting seed s.writer.log := by
    have hseed : s.writer.seed = seed := hstart.seed
    have hcounting := hsound.writer.counting
    rwa [hseed] at hcounting
  obtain ⟨hring, htoken, -⟩ := ReplicaFence.resolve_proved hresolve
  obtain ⟨j, epoch, hj, hsealed⟩ := (hsound.pods p).ring entry hring
  have hlt : j < s.writer.log.length := (List.getElem?_eq_some_iff.1 hj).1
  have hjk : j < k := hcounting.lt_of_token_le hj htoken
  -- nothing at or under the wall comes after the heartbeat, in this writer or a later one
  obtain ⟨-, hleads⟩ := hsound.run fun c hc => hcalls c (List.mem_append_right _ hc)
  obtain ⟨more, hlog⟩ := hleads.log
  have hafter := (hleads.sealed entry.fenceWall j hlt.le hsealed).rows row
  rw [← List.take_append_drop j (runFrom Cluster.step s later).writer.log, rowsOf_append] at hrow
  rcases List.mem_append.1 hrow with hrow | hrow
  · rw [hlog, List.take_append_of_le_length hlt.le] at hrow
    have hsplit : snapshot = s.writer.log.take j ++ (s.writer.log.take k).drop j := by
      rw [← List.take_append_drop j snapshot, List.take_take, min_eq_left hjk.le]
    rw [hsplit, rowsOf_append]
    exact List.mem_append_left _ hrow
  · have hlate := hafter hrow hchannel
    omega

def sampleRow : Row := ⟨⟨1⟩, some ⟨2⟩, seconds 1100⟩

def sampleCalls : List Call :=
  [.writer (.start 1), .writer (.insert 1 sampleRow), .writer (.check 1), .writer (.commit 1),
    .writer (.tick 100000000), .sample 0, .scan 0 none, .beat 0, .record 0]

theorem run_proved_sampleCalls :
    sampleRow ∈ rowsOf ((runFrom Cluster.step (Cluster.start (seconds 2000) ⟨7⟩)
      sampleCalls).writer.log.take 2) :=
  run_proved (seconds 2000) ⟨7⟩ sampleCalls [] (by decide) 0 2
    ⟨1, seconds 2100, seconds 1135⟩ (by decide +kernel) sampleRow (by decide +kernel)
    (by decide) (by decide)

end Colony.Replica
