import Colony.Defs.Acp.WakeLedgerCalls
import Colony.Defs.Data.History

namespace Colony.Acp

open Colony.Data Colony.Core

namespace WakeLedger

variable {l l' : WakeLedger}

structure Listed (l : WakeLedger) : Prop where
  ids : ∀ k, k ∈ l.handledIds ↔ k ∈ l.handled.map (·.id)
  nodup : (l.handled.map (·.id)).Nodup

theorem Listed.congr (h : l.Listed) (hhandled : l'.handled = l.handled)
    (hids : l'.handledIds = l.handledIds) : l'.Listed := by
  refine ⟨?_, ?_⟩
  · rw [hhandled, hids]
    exact h.ids
  · rw [hhandled]
    exact h.nodup

theorem Listed.without (h : l.Listed) (ids : List EventId)
    (hhandled : l'.handled = l.handled.filter fun y => decide (y.id ∉ ids))
    (hids : ∀ k, k ∈ l'.handledIds ↔ k ∈ l.handledIds ∧ k ∉ ids) : l'.Listed := by
  refine ⟨fun k => ?_, ?_⟩
  · rw [hids, h.ids, hhandled]
    simp only [List.mem_map, List.mem_filter, decide_eq_true_eq]
    constructor
    · rintro ⟨⟨y, hy, rfl⟩, hnot⟩
      exact ⟨y, ⟨hy, hnot⟩, rfl⟩
    · rintro ⟨y, ⟨hy, hnot⟩, rfl⟩
      exact ⟨⟨y, hy, rfl⟩, hnot⟩
  · rw [hhandled]
    exact h.nodup.sublist (List.filter_sublist.map _)

theorem Listed.remember (h : l.Listed) (x : HandledEvent) :
    (l.remember x).Listed ∧ x.id ∈ (l.remember x).handledIds := by
  by_cases hin : x.id ∈ l.handledIds
  · rw [WakeLedger.remember, if_pos hin]
    exact ⟨h, hin⟩
  · obtain ⟨gone, rest, hsplit, hhandled, hids, -, -, -⟩ := remember_fresh hin
    have hnodup := h.nodup
    rw [hsplit, List.map_append] at hnodup
    rw [h.ids, hsplit, List.map_append, List.mem_append, not_or] at hin
    have hgone (k : EventId) : (∀ y ∈ gone, y.id ≠ k) ↔ k ∉ gone.map (·.id) := by simp
    refine ⟨⟨fun k => ?_, ?_⟩, (hids _).2 ⟨.inl rfl, (hgone _).2 hin.1⟩⟩
    · rw [hids, hgone, h.ids, hsplit, hhandled]
      simp only [List.map_append, List.mem_append, List.map_cons, List.map_nil, List.mem_singleton]
      constructor
      · rintro ⟨rfl | hk | hk, hnot⟩
        · exact .inr rfl
        · exact absurd hk hnot
        · exact .inl hk
      · rintro (hk | rfl)
        · exact ⟨.inr (.inr hk), fun hk' => List.disjoint_of_nodup_append hnodup hk' hk⟩
        · exact ⟨.inl rfl, hin.1⟩
    · rw [hhandled, List.map_append, List.nodup_append]
      refine ⟨(List.nodup_append.1 hnodup).2.1, List.nodup_singleton _, fun k hk k' hk' heq => ?_⟩
      rw [List.map_singleton, List.mem_singleton] at hk'
      exact hin.2 (hk' ▸ heq ▸ hk)

def Evicts (l : WakeLedger) (x : HandledEvent) (k : EventId) : Prop :=
  x.id ∉ l.handledIds ∧
    ∃ y ∈ (l.handled ++ [x]).take ((l.handled ++ [x]).length - MAX_HANDLED), y.id = k

theorem remember_ids (l : WakeLedger) (x : HandledEvent) (k : EventId) :
    (k ∈ (l.remember x).committed ↔ k ∈ l.committed ∧ ¬l.Evicts x k) ∧
      (k ∈ (l.remember x).handledIds ↔ (k = x.id ∨ k ∈ l.handledIds) ∧ ¬l.Evicts x k) := by
  by_cases hin : x.id ∈ l.handledIds
  · rw [WakeLedger.remember, if_pos hin, Evicts, iff_false_intro (not_not_intro hin), false_and,
      not_false_eq_true, and_true, and_true]
    exact ⟨Iff.rfl, .inr, fun hk => hk.elim (fun heq => heq ▸ hin) id⟩
  · simp only [WakeLedger.remember, if_neg hin, foldl_evict_sets, Finset.mem_insert]
    simp [Evicts, hin]

theorem Listed.not_evicts_self (h : l.Listed) (x : HandledEvent) : ¬l.Evicts x x.id :=
  ((remember_ids l x x.id).2.1 (h.remember x).2).2

theorem remember_congr (hhandled : l.handled = l'.handled) (hids : l.handledIds = l'.handledIds)
    (x : HandledEvent) : (l.remember x).handled = (l'.remember x).handled ∧
      (l.remember x).handledIds = (l'.remember x).handledIds ∧ ∀ k, l.Evicts x k ↔ l'.Evicts x k := by
  have hevicts (k : EventId) : l.Evicts x k ↔ l'.Evicts x k := by rw [Evicts, Evicts, hhandled, hids]
  refine ⟨?_, ?_, hevicts⟩
  · by_cases hin : x.id ∈ l'.handledIds
    · rw [WakeLedger.remember, WakeLedger.remember, if_pos hin, if_pos (hids ▸ hin), hhandled]
    · rw [handled_remember hin, handled_remember (hids ▸ hin), hhandled]
  · ext k
    rw [(remember_ids l x k).2, (remember_ids l' x k).2, hids, hevicts]

theorem committed_foldl_remember {events : List HandledEvent} {k : EventId}
    (h : k ∈ (events.foldl WakeLedger.remember l).committed) : k ∈ l.committed := by
  induction events generalizing l with
  | nil => exact h
  | cons x events ih => exact ((remember_ids l x k).1.1 (ih h)).1

/-- The ledgers that a file is opened as and that any calls then make of it, over any disk. -/
inductive Reached : WakeLedger → Prop
  | openFile (disk : Option LedgerFile) (relayUrl agentPubkey : String) (now watermark : Nat) :
      Reached (openFile disk relayUrl agentPubkey now watermark)
  | admitEvent {l : WakeLedger} (h : Reached l) (event : HandledEvent) (now : Nat) :
      Reached (l.admitEvent event now).2
  | commit {l : WakeLedger} (h : Reached l) (disk : Option LedgerFile)
      (events pending : List HandledEvent) (now : Nat) (ok : Bool) :
      Reached (l.commit disk events pending now ok).ledger
  | attachToTurn {l : WakeLedger} (h : Reached l) (turnId : String) (ids : List EventId) :
      Reached (l.attachToTurn turnId ids)
  | finishTurn {l : WakeLedger} (h : Reached l) (disk : Option LedgerFile) (turnId : String)
      (answered : Bool) (pending : List HandledEvent) (now : Nat) (ok : Bool) :
      Reached (l.finishTurn disk turnId answered pending now ok).ledger
  | takeStoppedEvent {l : WakeLedger} (h : Reached l) (id : EventId) :
      Reached (l.takeStoppedEvent id).2
  | settleAnswered {l : WakeLedger} (h : Reached l) (disk : Option LedgerFile) (id : EventId)
      (pending : List HandledEvent) (now : Nat) (ok : Bool) :
      Reached (l.settleAnswered disk id pending now ok).ledger
  | reopenForRetry {l : WakeLedger} (h : Reached l) (floor : Nat) :
      Reached (l.reopenForRetry floor).2
  | forgetEvents {l : WakeLedger} (h : Reached l) (disk : Option LedgerFile) (ids : List EventId)
      (pending : List HandledEvent) (now : Nat) (ok : Bool) :
      Reached (l.forgetEvents disk ids pending now ok).ledger
  | sync {l : WakeLedger} (h : Reached l) (disk : Option LedgerFile) (pending : List HandledEvent)
      (now : Nat) (ok : Bool) : Reached (l.sync disk pending now ok).ledger

theorem Listed.sync (h : l.Listed) (disk : Option LedgerFile) (pending : List HandledEvent)
    (now : Nat) (ok : Bool) : (l.sync disk pending now ok).ledger.Listed := by
  obtain ⟨w, r, heq⟩ := sync_eq l disk pending now ok
  rw [heq]
  exact h.congr rfl rfl

theorem Listed.foldl {α : Type} {f : WakeLedger → α → WakeLedger}
    (hf : ∀ l a, l.Listed → (f l a).Listed) (h : l.Listed) (as : List α) : (as.foldl f l).Listed := by
  induction as generalizing l with
  | nil => exact h
  | cons a as ih => exact ih (hf l a h)

theorem Listed.recoverOne (h : l.Listed) (now : Nat) (x : InFlightEvent) :
    (recoverOne now l x).Listed := by
  have hrem := (h.remember ⟨x.id, x.createdAt⟩).1
  unfold WakeLedger.recoverOne
  cases recovery now x with
  | giveUp => exact hrem.congr rfl rfl
  | pause => exact hrem.congr rfl rfl
  | deliver => exact h.congr rfl rfl

theorem Listed.load (h : l.Listed) (handled abandoned : List HandledEvent)
    (inFlight : List InFlightEvent) (now : Nat) :
    ((abandoned.foldl rememberAbandoned (handled.foldl WakeLedger.remember l)).recoverInterrupted
      inFlight now).Listed := by
  refine Listed.foldl (fun l x hl => hl.recoverOne now x) ?_ _
  refine Listed.foldl (f := rememberAbandoned) (fun l x hl => (hl.remember x).1.congr rfl rfl) ?_ _
  exact Listed.foldl (fun l x hl => (hl.remember x).1) h _

theorem listed_openFile (disk : Option LedgerFile) (relayUrl agentPubkey : String)
    (now watermark : Nat) : (openFile disk relayUrl agentPubkey now watermark).Listed := by
  unfold openFile
  dsimp only
  split
  · refine Listed.load ?_ _ _ _ _
    exact ⟨by simp, List.nodup_nil⟩
  · refine Listed.congr (Listed.load ?_ _ _ _ _) rfl rfl
    exact ⟨by simp, List.nodup_nil⟩

theorem Listed.commit (h : l.Listed) (disk : Option LedgerFile) (events pending : List HandledEvent)
    (now : Nat) (ok : Bool) : (l.commit disk events pending now ok).ledger.Listed := by
  have hloop (acc : WakeLedger × List Undo) (hacc : acc.1.Listed) :
      (events.foldl (commitOne now) acc).1.Listed := by
    induction events generalizing acc with
    | nil => exact hacc
    | cons x events ih =>
      obtain ⟨hhandled, hids⟩ := handled_commitOne acc now x
      exact ih _ ((hacc.remember x).1.congr hhandled hids)
  have hsync := (hloop (l, []) h).sync disk pending now ok
  unfold WakeLedger.commit
  dsimp only
  split
  · exact hsync
  · exact Listed.foldl (f := uncommitOne) (fun l u hl => hl.congr rfl rfl) hsync _

theorem handledIds_foldl_forgetOne (l : WakeLedger) (es : List HandledEvent) (k : EventId) :
    k ∈ (es.foldl forgetOne l).handledIds ↔ k ∈ l.handledIds ∧ k ∉ es.map (·.id) := by
  induction es generalizing l with
  | nil => simp
  | cons x es ih =>
    rw [List.foldl_cons, ih, forgetOne, Finset.mem_erase, List.map_cons, List.mem_cons]
    tauto

theorem Listed.forgotten (h : l.Listed) (ids : List EventId) : (l.forgotten ids).Listed := by
  refine h.without ids ?_ fun k => ?_
  · simp [WakeLedger.forgotten]
  · simp only [WakeLedger.forgotten, handledIds_foldl_forgetOne, h.ids, List.mem_map, List.mem_filter,
      decide_eq_true_eq]
    refine and_congr_right fun hk => not_congr ⟨?_, fun hin => ?_⟩
    · rintro ⟨y, ⟨-, hy⟩, rfl⟩
      exact hy
    · obtain ⟨y, hy, rfl⟩ := hk
      exact ⟨y, ⟨hy, hin⟩, rfl⟩

theorem Reached.listed (h : Reached l) : l.Listed := by
  induction h with
  | openFile => exact listed_openFile _ _ _ _ _
  | @admitEvent l h event now ih =>
    obtain ⟨newest, heq⟩ := admit_snd now l event
    have hseen : Listed { l with
        newestReceived := newest, released := l.released.erase event.id } := ih.congr rfl rfl
    rw [heq]
    exact (hseen.remember event).1
  | commit h disk events pending now ok ih => exact ih.commit disk events pending now ok
  | attachToTurn h turnId ids ih =>
    unfold WakeLedger.attachToTurn
    split <;> exact ih.congr rfl rfl
  | @finishTurn l h disk turnId answered pending now ok ih =>
    have hfinished : (l.finished turnId answered).Listed := ih.congr rfl rfl
    rw [finishTurn_eq]
    exact hfinished.sync disk pending now ok
  | takeStoppedEvent h id ih => exact ih.congr rfl rfl
  | @settleAnswered l h disk id pending now ok ih =>
    have hsettled : (l.settledOne id).Listed := ih.congr rfl rfl
    exact hsettled.sync disk pending now ok
  | @reopenForRetry l h floor ih =>
    obtain ⟨c, b, heq, -⟩ := reopenForRetry_snd l floor
    obtain ⟨hs, ids, ss, rs, ks, hfold, hhandled, hids⟩ := foldl_reopenOne
      { l with
        abandoned := l.abandoned.filter fun entry => !decide (entry.createdAt ≥ floor)
        inFlight := ((l.paused floor).map (·.id)).foldl (fun fs id => fs.erase id) l.inFlight
        catchUpSince := c
        baseline := b } (l.reopened floor)
    rw [heq, hfold]
    exact ih.without _ hhandled fun k => (hids k).1
  | @forgetEvents l h disk ids pending now ok ih =>
    obtain ⟨w, r, heq⟩ := writeSnapshot_eq (l.forgotten ids) disk pending now ok
    rw [show (l.forgetEvents disk ids pending now ok).ledger = _ from heq]
    exact (ih.forgotten ids).congr rfl rfl
  | sync h disk pending now ok ih => exact ih.sync disk pending now ok

section Loop

variable (l) (e : EventId)

/-- The event is committed once the loop is through those before: it was and is not evicted, or it
was among them and is not evicted since. -/
def CommittedAfter (before : List HandledEvent) : Prop :=
  e ∈ (before.foldl remember l).committed ∨
    e ∈ before.map (·.id) ∧ e ∈ (before.foldl remember l).handledIds

def Fresh (before : List HandledEvent) (x : HandledEvent) : Prop :=
  x.id = e ∧ ¬l.CommittedAfter e before

def Again (before : List HandledEvent) (x : HandledEvent) : Prop :=
  l.Fresh e before x ∧ ¬Each (fun q y => ¬l.Fresh e q y) before

def undosOf (us : List Undo) : List Undo := us.filter fun u => decide (u.1 = e)

variable {l e} {before : List HandledEvent} {x : HandledEvent} {now : Nat} {acc : WakeLedger × List Undo}

structure Passed (l : WakeLedger) (before : List HandledEvent) (acc : WakeLedger × List Undo) :
    Prop where
  handled : acc.1.handled = (before.foldl WakeLedger.remember l).handled
  ids : acc.1.handledIds = (before.foldl WakeLedger.remember l).handledIds
  committed : ∀ e, e ∈ acc.1.committed ↔ l.CommittedAfter e before

theorem committedAfter_concat (hl : l.Listed) : l.CommittedAfter e (before ++ [x]) ↔
    e = x.id ∨ l.CommittedAfter e before ∧ ¬(before.foldl WakeLedger.remember l).Evicts x e := by
  have hself := (Listed.foldl (fun l y hl => (Listed.remember hl y).1) hl before).not_evicts_self x
  simp only [CommittedAfter, List.foldl_append, List.foldl_cons, List.foldl_nil, remember_ids,
    List.map_append, List.map_cons, List.map_nil, List.mem_append, List.mem_singleton]
  constructor
  · rintro (⟨hc, hnot⟩ | ⟨hin | rfl, hk, hnot⟩)
    · exact .inr ⟨.inl hc, hnot⟩
    · exact hk.imp_right fun hk => ⟨.inr ⟨hin, hk⟩, hnot⟩
    · exact .inl rfl
  · rintro (rfl | ⟨hc | ⟨hin, hk⟩, hnot⟩)
    · exact .inr ⟨.inr rfl, .inl rfl, hself⟩
    · exact .inl ⟨hc, hnot⟩
    · exact .inr ⟨.inl hin, .inr hk, hnot⟩

theorem mem_committed_iff (hl : l.Listed) : e ∈ (before.foldl WakeLedger.remember l).committed ↔
    Each (fun q y => ¬l.Fresh e q y) before ∧ l.CommittedAfter e before := by
  induction before using List.reverseRecOn with
  | nil => simp [CommittedAfter, each_nil]
  | append_singleton before x ih =>
    have hself := (Listed.foldl (fun l y hl => (Listed.remember hl y).1) hl before).not_evicts_self x
    rw [each_concat_iff, committedAfter_concat hl, List.foldl_append, List.foldl_cons, List.foldl_nil,
      (remember_ids _ x e).1, ih, Fresh]
    by_cases heq : x.id = e
    · subst heq
      tauto
    · have hne : e ≠ x.id := Ne.symm heq
      tauto

theorem Passed.fresh_iff (h : Passed l before acc) (hl : l.Listed) :
    x.id ∉ (acc.1.remember x).committed ↔ l.Fresh x.id before x := by
  have hself := (Listed.foldl (fun l y hl => (Listed.remember hl y).1) hl before).not_evicts_self x
  rw [← (remember_congr h.handled h.ids x).2.2] at hself
  rw [(remember_ids acc.1 x x.id).1, h.committed, Fresh]
  tauto

theorem Passed.commitOne (h : Passed l before acc) (hl : l.Listed) (now : Nat) (x : HandledEvent) :
    Passed l (before ++ [x]) (commitOne now acc x) := by
  obtain ⟨hhandled, hids, hevicts⟩ := remember_congr h.handled h.ids x
  obtain ⟨hone, hone'⟩ := handled_commitOne acc now x
  have hinsert : (WakeLedger.commitOne now acc x).1.committed =
      insert x.id (acc.1.remember x).committed := by
    unfold WakeLedger.commitOne
    dsimp only
    split
    next hin => exact (Finset.insert_eq_self.2 hin).symm
    next => rfl
  refine ⟨?_, ?_, fun e => ?_⟩
  · rw [hone, hhandled, List.foldl_append]
    rfl
  · rw [hone', hids, List.foldl_append]
    rfl
  · rw [hinsert, Finset.mem_insert, (remember_ids acc.1 x e).1, h.committed, hevicts,
      committedAfter_concat hl]

theorem commitOne_fresh (now : Nat) (hnot : x.id ∉ (acc.1.remember x).committed) :
    (commitOne now acc x).1.track x.id = (acc.1.track x.id).start x now ∧
      (commitOne now acc x).2 =
        acc.2 ++ [(x.id, (acc.1.track x.id).inFlight, (acc.1.track x.id).carried)] := by
  have hrem := track_remember acc.1 x x.id
  unfold WakeLedger.commitOne
  dsimp only
  rw [if_neg hnot, ← hrem]
  refine ⟨?_, rfl⟩
  simp only [track, Track.start, Track.restarts, Dict.lookup_insert_if, Dict.lookup_erase_if, if_true]

theorem commitOne_other (now : Nat) (h : ¬(x.id = e ∧ x.id ∉ (acc.1.remember x).committed)) :
    (commitOne now acc x).1.track e = acc.1.track e ∧
      undosOf e (commitOne now acc x).2 = undosOf e acc.2 := by
  have hrem := track_remember acc.1 x e
  unfold WakeLedger.commitOne
  dsimp only
  split
  · exact ⟨hrem, rfl⟩
  next hnot =>
    have hne : x.id ≠ e := fun heq => h ⟨heq, hnot⟩
    rw [← hrem]
    refine ⟨?_, ?_⟩
    · simp only [track, Dict.lookup_insert_if, Dict.lookup_erase_if, if_neg hne.symm]
    · simp [undosOf, hne]

/-- What the loop has made of an event: nothing, or it has it in flight, with an entry of what it
was before the loop and one more for each time it was committed again. -/
def Undoes (l : WakeLedger) (x : HandledEvent) (now : Nat) (before : List HandledEvent)
    (acc : WakeLedger × List Undo) : Prop :=
  Each (fun q y => ¬l.Fresh x.id q y) before ∧ undosOf x.id acc.2 = [] ∧
      acc.1.track x.id = l.track x.id ∨
    ¬Each (fun q y => ¬l.Fresh x.id q y) before ∧
      acc.1.track x.id = (l.track x.id).start x now ∧
      ∃ more, undosOf x.id acc.2 = (x.id, (l.track x.id).inFlight, (l.track x.id).carried) :: more ∧
        (∀ u ∈ more, u = (x.id, ((l.track x.id).start x now).inFlight, none)) ∧
        (more = [] ↔ Each (fun q y => ¬l.Again x.id q y) before)

theorem Undoes.step {y : HandledEvent} (h : Undoes l x now before acc) (hpassed : Passed l before acc)
    (hl : l.Listed) (hsame : y.id = x.id → y = x) :
    Undoes l x now (before ++ [y]) (commitOne now acc y) := by
  by_cases hfresh : l.Fresh x.id before y
  · obtain rfl := hsame hfresh.1
    obtain ⟨htrack, hundo⟩ := commitOne_fresh now ((hpassed.fresh_iff hl).2 hfresh)
    have hundos : undosOf y.id (commitOne now acc y).2 =
        undosOf y.id acc.2 ++ [(y.id, (acc.1.track y.id).inFlight, (acc.1.track y.id).carried)] := by
      rw [hundo]
      simp [undosOf]
    refine .inr ⟨fun hnone => (each_concat_iff.1 hnone).2 hfresh, ?_⟩
    rw [htrack, hundos]
    rcases h with ⟨hnone, hempty, hkept⟩ | ⟨hsome, hstarted, more, hmore, hall, -⟩
    · rw [hkept, hempty]
      refine ⟨rfl, [], rfl, by simp, iff_of_true rfl ?_⟩
      refine each_concat_iff.2 ⟨fun q z rest hq hagain => ?_, fun hagain => hagain.2 hnone⟩
      exact hnone q z rest hq hagain.1
    · rw [hstarted, hmore]
      refine ⟨rfl, more ++ [_], rfl, fun u hu => ?_, iff_of_false (by simp) fun hnone => ?_⟩
      · rcases List.mem_append.1 hu with hu | hu
        · exact hall u hu
        · exact List.mem_singleton.1 hu
      · exact (each_concat_iff.1 hnone).2 ⟨hfresh, hsome⟩
  · have hnot : ¬(y.id = x.id ∧ y.id ∉ (acc.1.remember y).committed) := by
      rintro ⟨heq, hnot⟩
      exact hfresh (heq ▸ (hpassed.fresh_iff hl).1 hnot)
    obtain ⟨htrack, hundos⟩ := commitOne_other now hnot
    rw [Undoes, htrack, hundos]
    refine h.imp (fun ⟨hnone, hrest⟩ => ⟨hnone.concat hfresh, hrest⟩) ?_
    rintro ⟨hsome, hstarted, more, hmore, hall, hagain⟩
    refine ⟨fun hnone => hsome (each_concat_iff.1 hnone).1, hstarted, more, hmore, hall, ?_⟩
    rw [hagain, each_concat_iff]
    exact (and_iff_left fun h => hfresh h.1).symm

theorem undoes_loop (now : Nat) (hl : l.Listed) {events : List HandledEvent}
    (hsame : ∀ y ∈ events, y.id = x.id → y = x) :
    Passed l events (events.foldl (commitOne now) (l, [])) ∧
      Undoes l x now events (events.foldl (commitOne now) (l, [])) := by
  induction events using List.reverseRecOn with
  | nil => exact ⟨⟨rfl, rfl, by simp [CommittedAfter]⟩, .inl ⟨each_nil, rfl, rfl⟩⟩
  | append_singleton before y ih =>
    obtain ⟨hpassed, hundoes⟩ := ih fun z hz => hsame z (List.mem_append_left _ hz)
    rw [List.foldl_append]
    exact ⟨hpassed.commitOne hl now y, hundoes.step hpassed hl (hsame y (by simp))⟩

end Loop

def Track.undo (t : Track) (u : Undo) : Track := { t with inFlight := u.2.1, carried := u.2.2 <|> t.carried }

theorem track_uncommit (e : EventId) (us : List Undo) :
    (us.foldl uncommitOne l).track e = (undosOf e us).foldl Track.undo (l.track e) ∧
      (e ∈ (us.foldl uncommitOne l).committed ↔ e ∈ l.committed ∧ undosOf e us = []) := by
  induction us generalizing l with
  | nil => simp [undosOf]
  | cons u us ih =>
    obtain ⟨htrack, hcommitted⟩ := ih (l := uncommitOne l u)
    rw [List.foldl_cons, htrack, hcommitted]
    by_cases heq : u.1 = e
    · have hundos : undosOf e (u :: us) = u :: undosOf e us := by simp [undosOf, heq]
      have hone : (uncommitOne l u).track e = (l.track e).undo u := by
        obtain ⟨id, previous, carried⟩ := u
        subst heq
        cases previous <;> cases carried <;> simp [uncommitOne, track, Track.undo]
      rw [hundos, List.foldl_cons, hone]
      simp [uncommitOne, heq]
    · have hundos : undosOf e (u :: us) = undosOf e us := by simp [undosOf, heq]
      obtain ⟨hone, hone'⟩ := uncommitOne_of_ne l heq
      rw [hundos, hone, hone']
      exact ⟨rfl, Iff.rfl⟩

/-- The ledger is as before, but for commitments that were evicted: so a later save writes the same
events in flight, with their counts, and none of the waiting ones as handled. -/
structure RolledBack (l : WakeLedger) (events : List HandledEvent) (l' : WakeLedger) : Prop where
  committed : ∀ e, e ∈ l'.committed ↔ e ∈ (events.foldl WakeLedger.remember l).committed
  inFlight : ∀ e, l'.inFlight.lookup e = l.inFlight.lookup e
  carried : ∀ e, l'.carried.lookup e = l.carried.lookup e
  written : ∀ pending now x,
    x ∈ (l'.snapshot pending now).inFlight ↔ x ∈ (l.snapshot pending now).inFlight
  waiting : ∀ pending now, ∀ x ∈ pending, x.id ∉ l.committed →
    ∀ y ∈ (l'.snapshot pending now).handled, y.id ≠ x.id

/-- No event is committed a second time by the loop, unless it was in flight before just so. -/
def Undoable (l : WakeLedger) (events : List HandledEvent) (now : Nat) : Prop :=
  ∀ e, Each (fun before x => l.Again e before x →
    l.inFlight.lookup e = some ⟨e, x.createdAt, (l.track e).restarts, now⟩) events

theorem RolledBack.of_tables {events : List HandledEvent}
    (hcommitted : ∀ e, e ∈ l'.committed ↔ e ∈ (events.foldl WakeLedger.remember l).committed)
    (hinFlight : ∀ e, l'.inFlight.lookup e = l.inFlight.lookup e)
    (hcarried : ∀ e, l'.carried.lookup e = l.carried.lookup e) : RolledBack l events l' := by
  have hentries (s : WakeLedger) (pending : List HandledEvent) (now : Nat) (x : InFlightEvent) :
      x ∈ (s.snapshot pending now).inFlight ↔ ∃ k, s.inFlight.lookup k = some x := by
    simp only [snapshot, List.mem_insertionSort, List.mem_map, Sigma.exists,
      Dict.mem_lookup_entries]
    constructor
    · rintro ⟨k, y, hy, rfl⟩
      exact ⟨k, hy⟩
    · rintro ⟨k, hk⟩
      exact ⟨k, x, hk, rfl⟩
  refine ⟨hcommitted, hinFlight, hcarried, fun pending now x => ?_, fun pending now x hx hnot y hy => ?_⟩
  · rw [hentries, hentries]
    simp only [hinFlight]
  · have hnot' : x.id ∉ l'.committed := by
      rw [hcommitted]
      exact fun hin => hnot (committed_foldl_remember hin)
    simp only [snapshot, List.mem_filter, Bool.and_eq_true, Bool.not_eq_true',
      decide_eq_false_iff_not] at hy
    rintro heq
    refine hy.2.1 (List.mem_map.2 ⟨x, List.mem_filter.2 ⟨hx, ?_⟩, heq.symm⟩)
    simpa using hnot'

theorem foldl_undo {e : EventId} {started : Option InFlightEvent} {more : List Undo}
    (hmore : ∀ u ∈ more, u = (e, started, none)) (t : Track) :
    more.foldl Track.undo t = if more = [] then t else { t with inFlight := started } := by
  induction more generalizing t with
  | nil => rfl
  | cons u more ih =>
    obtain ⟨rfl, hrest⟩ := List.forall_mem_cons.1 hmore
    rw [List.foldl_cons, ih hrest, if_neg (List.cons_ne_nil _ _)]
    split <;> rfl

section Unsaved

variable (disk : Option LedgerFile) (events pending : List HandledEvent) (now : Nat) (ok : Bool)

theorem commit_undone_event (hl : l.Listed)
    (hunsaved : (l.commit disk events pending now ok).outcome.isSaved = false) {x : HandledEvent}
    (hsame : ∀ y ∈ events, y.id = x.id → y = x) :
    (x.id ∈ (l.commit disk events pending now ok).ledger.committed ↔
        x.id ∈ (events.foldl WakeLedger.remember l).committed) ∧
      (Each (fun q y => ¬l.Again x.id q y) events →
        (l.commit disk events pending now ok).ledger.track x.id = l.track x.id) ∧
      (¬Each (fun q y => ¬l.Again x.id q y) events →
        (l.commit disk events pending now ok).ledger.track x.id =
          { l.track x.id with inFlight := ((l.track x.id).start x now).inFlight }) := by
  obtain ⟨hpassed, hundoes⟩ := undoes_loop now hl hsame
  obtain ⟨w, r, hsync⟩ := sync_eq (events.foldl (commitOne now) (l, [])).1 disk pending now ok
  rw [commit_undone disk pending now ok hunsaved, hsync]
  generalize events.foldl (commitOne now) (l, []) = acc at hpassed hundoes
  obtain ⟨htrack, hcommitted⟩ := track_uncommit (l := { acc.1 with written := w, retryAt := r })
    x.id acc.2
  rw [htrack, hcommitted, mem_committed_iff hl, ← hpassed.committed]
  rcases hundoes with ⟨hnone, hempty, hkept⟩ | ⟨hsome, hstarted, more, hmore, hall, hagain⟩
  · have hnever : Each (fun q y => ¬l.Again x.id q y) events :=
      fun q y rest hq hagain => hnone q y rest hq hagain.1
    rw [hempty]
    exact ⟨by simp [hnone], fun _ => hkept, fun hnot => absurd hnever hnot⟩
  · have hfirst : Track.undo (track { acc.1 with written := w, retryAt := r } x.id)
        (x.id, (l.track x.id).inFlight, (l.track x.id).carried) = l.track x.id := by
      rw [show track { acc.1 with written := w, retryAt := r } x.id = acc.1.track x.id from rfl,
        hstarted, Track.undo, Track.start]
      simp
    rw [hmore, List.foldl_cons, hfirst, foldl_undo hall]
    exact ⟨by simp [hsome], fun hnever => if_pos (hagain.2 hnever),
      fun hnot => if_neg fun hnil => hnot (hagain.1 hnil)⟩

end Unsaved

/-- An unsaved commit is rolled back if and only if its loop commits no event a second time: one
that is listed again after the commit itself evicted it. -/
theorem commit_rolledBack_iff (l : WakeLedger) (hreached : Reached l) (disk : Option LedgerFile)
    (events pending : List HandledEvent) (now : Nat) (ok : Bool)
    (hhash : ∀ x ∈ events, ∀ y ∈ events, x.id = y.id → x = y)
    (hunsaved : (l.commit disk events pending now ok).outcome.isSaved = false) :
    RolledBack l events (l.commit disk events pending now ok).ledger ↔ Undoable l events now := by
  constructor
  · intro h e before y after hsplit hagain
    have hy : y ∈ events := by simp [hsplit]
    obtain rfl : y.id = e := hagain.1.1
    have hevent := commit_undone_event disk events pending now ok hreached.listed hunsaved
      fun z hz => hhash z hz y hy
    rw [← h.inFlight]
    exact congrArg Track.inFlight
      (hevent.2.2 fun hnever => hnever before y after hsplit hagain)
  · intro h
    have hevent (e : EventId) : (e ∈ (l.commit disk events pending now ok).ledger.committed ↔
          e ∈ (events.foldl WakeLedger.remember l).committed) ∧
        (l.commit disk events pending now ok).ledger.track e = l.track e := by
      obtain ⟨x, rfl, hsame⟩ : ∃ x : HandledEvent, x.id = e ∧ ∀ y ∈ events, y.id = x.id → y = x := by
        by_cases hin : ∃ x ∈ events, x.id = e
        · obtain ⟨x, hx, rfl⟩ := hin
          exact ⟨x, rfl, fun y hy => hhash y hy x hx⟩
        · exact ⟨⟨e, 0⟩, rfl, fun y hy heq => absurd ⟨y, hy, heq⟩ hin⟩
      obtain ⟨hcommitted, hnever, hagain⟩ := commit_undone_event disk events pending now ok
        hreached.listed hunsaved hsame
      refine ⟨hcommitted, ?_⟩
      by_cases hnone : Each (fun q y => ¬l.Again x.id q y) events
      · exact hnever hnone
      · rw [hagain hnone]
        simp only [Each, not_forall, not_not] at hnone
        obtain ⟨before, y, after, hsplit, hy⟩ := hnone
        obtain rfl := hsame y (by simp [hsplit]) hy.1.1
        have hsome : (l.track y.id).inFlight = ((l.track y.id).start y now).inFlight :=
          h y.id before y after hsplit hy
        rw [← hsome]
    exact RolledBack.of_tables (fun e => (hevent e).1)
      (fun e => congrArg Track.inFlight (hevent e).2) fun e => congrArg Track.carried (hevent e).2

theorem undoable_of_nodup {events : List HandledEvent} (h : (events.map (·.id)).Nodup) (now : Nat) :
    Undoable l events now := by
  intro e before x after hsplit hagain
  obtain ⟨hx, hbefore⟩ := hagain
  simp only [Each, not_forall, not_not] at hbefore
  obtain ⟨q, y, rest, rfl, hy⟩ := hbefore
  rw [hsplit, List.map_append, List.nodup_append] at h
  refine absurd (hy.1.trans hx.1.symm) (h.2.2 y.id ?_ x.id ?_) <;> simp

-- The file was saved with two events in flight, one of which is committed again.
def savedBefore : WakeLedger :=
  ((openFile none "" "" 100 0).commit none [⟨⟨4⟩, 8⟩, ⟨⟨5⟩, 9⟩] [] 100 true).ledger

theorem commit_rolledBack_iff_one :
    let l := (savedBefore.commit none [⟨⟨0⟩, 10⟩, ⟨⟨4⟩, 8⟩, ⟨⟨1⟩, 11⟩] [⟨⟨2⟩, 12⟩] 120 false).ledger
    l.inFlight.lookup ⟨4⟩ = some ⟨⟨4⟩, 8, 0, 100⟩ ∧ RolledBack savedBefore
      [⟨⟨0⟩, 10⟩, ⟨⟨4⟩, 8⟩, ⟨⟨1⟩, 11⟩] l := by
  have hreached : Reached savedBefore := .commit (.openFile none "" "" 100 0) none _ [] 100 true
  refine ⟨by decide +kernel, (commit_rolledBack_iff savedBefore hreached none _ _ 120 false ?_
    (by decide +kernel)).2 (undoable_of_nodup (by decide) 120)⟩
  decide

theorem handled_foldl_remember {xs : List HandledEvent} (hlen : l.handled.length ≤ MAX_HANDLED)
    (hnew : ∀ x ∈ xs, x.id ∉ l.handledIds) (hnodup : (xs.map (·.id)).Nodup) :
    (xs.foldl WakeLedger.remember l).handled =
      (l.handled ++ xs).drop ((l.handled ++ xs).length - MAX_HANDLED) := by
  induction xs generalizing l with
  | nil => simp [Nat.sub_eq_zero_of_le hlen]
  | cons x xs ih =>
    obtain ⟨hx, hxs⟩ := List.forall_mem_cons.1 hnew
    obtain ⟨hnot, hnodup⟩ := List.nodup_cons.1 hnodup
    have hone := handled_remember hx
    have hlater : ∀ y ∈ xs, y.id ∉ (l.remember x).handledIds := by
      intro y hy hin
      rcases ((remember_ids l x y.id).2.1 hin).1 with heq | hin
      · exact hnot (List.mem_map.2 ⟨y, hy, heq⟩)
      · exact hxs y hy hin
    have hlen' : (l.remember x).handled.length ≤ MAX_HANDLED := by
      rw [hone, List.length_drop]
      omega
    have hdrop : (l.remember x).handled ++ xs =
        (l.handled ++ x :: xs).drop ((l.handled ++ [x]).length - MAX_HANDLED) := by
      rw [hone, ← List.drop_append_of_le_length (Nat.sub_le _ _), List.append_assoc,
        List.singleton_append]
    rw [List.foldl_cons, ih hlen' hlater hnodup, hdrop, List.drop_drop, List.length_drop]
    generalize MAX_HANDLED = cap
    congr 1
    simp only [List.length_append, List.length_cons, List.length_nil]
    omega

def others : List HandledEvent := (List.range MAX_HANDLED).map fun i => ⟨⟨BitVec.ofNat 256 (i + 1)⟩, 20⟩

theorem others_nodup : (others.map (·.id)).Nodup := by
  rw [others, List.map_map]
  refine List.nodup_range.map_on fun i hi j hj heq => ?_
  have hbits := congrArg (fun id => id.bits.toNat) heq
  simp only [Function.comp, BitVec.toNat_ofNat, List.mem_range, MAX_HANDLED] at hbits hi hj
  omega

theorem others_ne : ∀ y ∈ others, y.id ≠ ⟨0⟩ := by
  intro y hy heq
  obtain ⟨i, hi, rfl⟩ := List.mem_map.1 hy
  have hbits := congrArg (fun id => id.bits.toNat) heq
  have hzero : (0 : BitVec 256).toNat = 0 := rfl
  simp only [BitVec.toNat_ofNat, List.mem_range, MAX_HANDLED] at hbits hi
  omega

theorem commit_leaves_in_flight :
    ((openFile none "" "" 100 0).commit none (⟨⟨0⟩, 10⟩ :: others ++ [⟨⟨0⟩, 10⟩]) [] 100
        false).outcome.isSaved = false ∧
      (openFile none "" "" 100 0).inFlight.lookup ⟨0⟩ = none ∧
      ((openFile none "" "" 100 0).commit none (⟨⟨0⟩, 10⟩ :: others ++ [⟨⟨0⟩, 10⟩]) [] 100
        false).ledger.inFlight.lookup ⟨0⟩ = some ⟨⟨0⟩, 10, 0, 100⟩ := by
  generalize hopened : openFile none "" "" 100 0 = l
  have hl : l.Listed := hopened ▸ listed_openFile _ _ _ _ _
  have hhandled : l.handled = [] := by rw [← hopened]; rfl
  have hids : l.handledIds = ∅ := by rw [← hopened]; rfl
  have hcommitted : l.committed = ∅ := by rw [← hopened]; rfl
  have hwritten : l.retryAt = none ∧ l.written = none := by rw [← hopened]; exact ⟨rfl, rfl⟩
  have htrack : l.track ⟨0⟩ = ⟨none, none, none⟩ := by rw [← hopened]; rfl
  have hunsaved : (l.commit none (⟨⟨0⟩, 10⟩ :: others ++ [⟨⟨0⟩, 10⟩]) [] 100 false).outcome.isSaved =
      false := by
    obtain ⟨_, _, _, _, _, _, heq⟩ := foldl_commitOne_eq 100 (l, [])
      (⟨⟨0⟩, 10⟩ :: others ++ [⟨⟨0⟩, 10⟩])
    rw [commit_outcome, heq]
    simp [sync, writeSnapshot, hwritten, SyncOutcome.isSaved]
  have hsame : ∀ y ∈ (⟨⟨0⟩, 10⟩ :: others ++ [⟨⟨0⟩, 10⟩] : List HandledEvent),
      y.id = ⟨0⟩ → y = ⟨⟨0⟩, 10⟩ := by
    intro y hy heq
    rcases List.mem_append.1 hy with hy | hy
    · exact (List.mem_cons.1 hy).resolve_right fun hy => others_ne y hy heq
    · exact List.mem_singleton.1 hy
  generalize hevents : (⟨⟨0⟩, 10⟩ :: others ++ [⟨⟨0⟩, 10⟩] : List HandledEvent) = events
    at hunsaved hsame ⊢
  refine ⟨hunsaved, congrArg Track.inFlight htrack, ?_⟩
  have hevent := (commit_undone_event none events [] 100 false hl hunsaved
    (x := ⟨⟨0⟩, 10⟩) hsame).2.2 ?_
  · rw [htrack] at hevent
    exact congrArg Track.inFlight hevent
  -- The first is evicted by the last of the others, so it is committed a second time.
  intro hnever
  have hnotAfter (before : List HandledEvent)
      (hgone : ⟨0⟩ ∉ (before.foldl WakeLedger.remember l).handledIds) : ¬l.CommittedAfter ⟨0⟩ before := by
    rintro (hin | ⟨-, hin⟩)
    · have hnone := committed_foldl_remember hin
      rw [hcommitted] at hnone
      cases hnone
    · exact hgone hin
  have hfirst : l.Fresh ⟨0⟩ [] ⟨⟨0⟩, 10⟩ := ⟨rfl, hnotAfter [] (by rw [List.foldl_nil, hids]; simp)⟩
  have hgone : (⟨0⟩ : EventId) ∉
      ((⟨⟨0⟩, 10⟩ :: others).foldl WakeLedger.remember l).handledIds := by
    have hlisted := Listed.foldl (fun l y hl => (Listed.remember hl y).1) hl (⟨⟨0⟩, 10⟩ :: others)
    rw [hlisted.ids, handled_foldl_remember (by simp [hhandled]) (by simp [hids]) ?_, hhandled]
    · have hlength : ([] ++ ⟨⟨0⟩, 10⟩ :: others : List HandledEvent).length - MAX_HANDLED = 1 := by
        simp [others]
      rw [hlength, List.nil_append, List.drop_one, List.tail_cons]
      rintro hin
      obtain ⟨y, hy, heq⟩ := List.mem_map.1 hin
      exact others_ne y hy heq
    · refine List.nodup_cons.2 ⟨fun hin => ?_, others_nodup⟩
      obtain ⟨y, hy, heq⟩ := List.mem_map.1 hin
      exact others_ne y hy heq
  exact hnever (⟨⟨0⟩, 10⟩ :: others) ⟨⟨0⟩, 10⟩ [] hevents.symm
    ⟨⟨rfl, hnotAfter _ hgone⟩, fun hnone => hnone [] ⟨⟨0⟩, 10⟩ others rfl hfirst⟩

end WakeLedger

end Colony.Acp
