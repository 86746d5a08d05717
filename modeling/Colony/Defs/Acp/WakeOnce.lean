import Colony.Defs.Acp.WakeRuns

namespace Colony.Acp

open Colony.Data Colony.Core

namespace World

variable {p : Published} {w w' : World} {e : EventId}

/-- A turn the ledger does not have yet pushes out, of those it has, only turns without the event. -/
def KeepsTurns (e : EventId) (w : World) : WakeCall → Prop
  | .attachToTurn turnId _ => turnId ∉ w.ledger.turns.map (·.1) →
      ∀ turn ∈ w.ledger.turns.take (w.ledger.turns.length + 1 - MAX_TURNS), e ∉ turn.2
  | _ => True

instance (e : EventId) (w : World) : (call : WakeCall) → Decidable (KeepsTurns e w call)
  | .attachToTurn turnId _ => inferInstanceAs (Decidable (turnId ∉ w.ledger.turns.map (·.1) →
      ∀ turn ∈ w.ledger.turns.take (w.ledger.turns.length + 1 - MAX_TURNS), e ∉ turn.2))
  | .restart .. | .admitEvent .. | .commit .. | .finishTurn .. | .takeStoppedEvent .. | .settleAnswered ..
  | .reopenForRetry .. | .forgetEvents .. | .sync .. => .isTrue trivial

structure Settling (p : Published) (e : EventId) (w : World) (call : WakeCall) : Prop where
  orderly : Orderly p e w call
  turns : KeepsTurns e w call

instance (p : Published) (e : EventId) (w : World) (call : WakeCall) :
    Decidable (Settling p e w call) :=
  decidable_of_iff (Orderly p e w call ∧ KeepsTurns e w call)
    ⟨fun ⟨h₁, h₂⟩ => ⟨h₁, h₂⟩, fun ⟨h₁, h₂⟩ => ⟨h₁, h₂⟩⟩

structure Seated (e : EventId) (w : World) : Prop where
  nodup : (w.ledger.turns.map (·.1)).Nodup
  seated : ∀ turnId, (turnId, e) ∈ w.attached →
    ∃ turn ∈ w.ledger.turns, turn.1 = turnId ∧ e ∈ turn.2

theorem Seated.settles (h : Seated e w) {turnId : String} (ha : (turnId, e) ∈ w.attached) :
    e ∈ w.ledger.settles turnId true := by
  obtain ⟨turn, hmem, hid, he⟩ := h.seated turnId ha
  unfold WakeLedger.settles
  rw [if_pos rfl]
  cases hfind : w.ledger.turns.find? fun turn => decide (turn.1 = turnId) with
  | none => exact absurd (decide_eq_true hid) (List.find?_eq_none.1 hfind _ hmem)
  | some found =>
    have hfound : found.1 = turnId := by simpa using List.find?_some hfind
    have heq : found = turn := List.inj_on_of_nodup_map h.nodup (List.mem_of_find?_eq_some hfind)
      hmem (hfound.trans hid.symm)
    rw [heq]
    exact he

theorem mem_modify {f : α → α} {x : α} {l : List α} (h : x ∈ l) (i : Nat) :
    x ∈ l.modify i f ∨ f x ∈ l.modify i f := by
  induction l generalizing i with
  | nil => cases h
  | cons y l ih =>
    cases i with
    | zero =>
      rcases List.mem_cons.1 h with rfl | h
      · exact .inr List.mem_cons_self
      · exact .inl (List.mem_cons_of_mem _ h)
    | succ i =>
      rcases List.mem_cons.1 h with rfl | h
      · exact .inl List.mem_cons_self
      · exact (ih h i).imp (List.mem_cons_of_mem _) (List.mem_cons_of_mem _)

theorem map_modify {f : α → α} {g : α → β} (h : ∀ x, g (f x) = g x) (l : List α) (i : Nat) :
    (l.modify i f).map g = l.map g := by
  induction l generalizing i with
  | nil => simp
  | cons y l ih =>
    cases i with
    | zero => simp [h]
    | succ i => simp [ih]

theorem mem_attached {turnId t : String} {ids : List EventId}
    (h : (t, e) ∈ ids.map fun id => (turnId, id)) : t = turnId ∧ e ∈ ids := by
  obtain ⟨id, hid, heq⟩ := List.mem_map.1 h
  cases heq
  exact ⟨rfl, hid⟩

/-- The turn is there already, and gets the events that it does not have. -/
theorem Seated.attach_known (h : Seated e w) {w' : World} {turnId : String} {ids : List EventId}
    (hany : (w.ledger.turns.any fun turn => decide (turn.1 = turnId)) = true)
    (hturns : w'.ledger.turns = w.ledger.turns.modify
      (w.ledger.turns.findIdx fun turn => decide (turn.1 = turnId))
      fun turn => (turn.1, ids.foldl pushNew turn.2))
    (hattached : w'.attached = w.attached ++ ids.map fun id => (turnId, id)) : Seated e w' := by
  generalize hf : (fun turn : String × List EventId => (turn.1, ids.foldl pushNew turn.2)) = f at hturns
  have hkey : ∀ turn, (f turn).1 = turn.1 := fun turn => by rw [← hf]
  have hids : ∀ turn id, id ∈ (f turn).2 ↔ id ∈ turn.2 ∨ id ∈ ids := fun turn id => by simp [← hf]
  refine ⟨by rw [hturns, map_modify hkey]; exact h.nodup, fun t ha => ?_⟩
  rw [hturns]
  rw [hattached] at ha
  rcases List.mem_append.1 ha with ha | ha
  · obtain ⟨turn, hmem, hid, he⟩ := h.seated t ha
    rcases mem_modify (f := f) hmem _ with hin | hin
    · exact ⟨turn, hin, hid, he⟩
    · exact ⟨f turn, hin, (hkey turn).trans hid, (hids turn e).2 (.inl he)⟩
  · obtain ⟨rfl, he⟩ := mem_attached ha
    have hlt : w.ledger.turns.findIdx (fun turn => decide (turn.1 = t)) < w.ledger.turns.length :=
      List.findIdx_lt_length.2 (List.any_eq_true.1 hany)
    refine ⟨f w.ledger.turns[w.ledger.turns.findIdx fun turn => decide (turn.1 = t)], ?_, ?_,
      (hids _ e).2 (.inr he)⟩
    · rw [← List.getElem_modify_eq f _ _ (by rwa [List.length_modify])]
      exact List.getElem_mem _
    · rw [hkey]
      simpa using List.findIdx_getElem (w := hlt)

/-- A new turn, for which the oldest ones may have to go. -/
theorem Seated.attach_new (h : Seated e w) {w' : World} {turnId : String} {ids : List EventId}
    {excess : Nat} (hfresh : turnId ∉ w.ledger.turns.map (·.1)) (hle : excess ≤ w.ledger.turns.length)
    (hgone : ∀ turn ∈ w.ledger.turns.take excess, e ∉ turn.2)
    (hturns : w'.ledger.turns = (w.ledger.turns ++ [(turnId, ids)]).drop excess)
    (hattached : w'.attached = w.attached ++ ids.map fun id => (turnId, id)) : Seated e w' := by
  have hnodup : ((w.ledger.turns ++ [(turnId, ids)]).map (·.1)).Nodup := by
    rw [List.map_append, List.nodup_append]
    refine ⟨h.nodup, List.nodup_singleton _, ?_⟩
    rintro a ha b hb rfl
    rw [List.mem_singleton.1 hb] at ha
    exact hfresh ha
  refine ⟨?_, fun t ha => ?_⟩
  · rw [hturns, List.map_drop]
    exact hnodup.sublist (List.drop_sublist _ _)
  rw [hturns, List.drop_append_of_le_length hle]
  rw [hattached] at ha
  rcases List.mem_append.1 ha with ha | ha
  · obtain ⟨turn, hmem, hid, he⟩ := h.seated t ha
    rw [← List.take_append_drop excess w.ledger.turns, List.mem_append] at hmem
    exact ⟨turn, List.mem_append_left _ (hmem.resolve_left fun hin => hgone turn hin he), hid, he⟩
  · obtain ⟨rfl, he⟩ := mem_attached ha
    exact ⟨(t, ids), List.mem_append_right _ List.mem_cons_self, rfl, he⟩

theorem Seated.attach (h : Seated e w) {turnId : String} {ids : List EventId}
    (hkeep : KeepsTurns e w (.attachToTurn turnId ids)) :
    Seated e (w.step p (.attachToTurn turnId ids)) := by
  simp only [step]
  unfold WakeLedger.attachToTurn
  dsimp only
  by_cases hany : (w.ledger.turns.any fun turn => decide (turn.1 = turnId)) = true
  · rw [if_pos hany]
    exact h.attach_known hany rfl rfl
  · rw [if_neg hany]
    have hfresh : turnId ∉ w.ledger.turns.map (·.1) := by simpa using hany
    have hgone := hkeep hfresh
    rw [← List.length_singleton (a := (turnId, ids)), ← List.length_append] at hgone
    refine h.attach_new hfresh ?_ hgone rfl rfl
    rw [List.length_append, List.length_singleton, MAX_TURNS]
    omega

theorem Seated.finish (h : Seated e w) {w' : World} {turnId : String}
    (hturns : w'.ledger.turns = w.ledger.turns.eraseP fun turn => decide (turn.1 = turnId))
    (hattached : w'.attached = w.attached.filter fun a => !decide (a.1 = turnId)) :
    Seated e w' := by
  refine ⟨?_, fun t ha => ?_⟩
  · rw [hturns]
    exact h.nodup.sublist (List.eraseP_sublist.map _)
  · rw [hattached, List.mem_filter, Bool.not_eq_true', decide_eq_false_iff_not] at ha
    obtain ⟨turn, hmem, hid, he⟩ := h.seated t ha.1
    refine ⟨turn, ?_, hid, he⟩
    rw [hturns]
    exact (List.mem_eraseP_of_neg (by simpa [hid] using ha.2)).2 hmem

theorem Seated.congr (h : Seated e w) {w' : World} (hturns : w'.ledger.turns = w.ledger.turns)
    (hattached : w'.attached = w.attached) : Seated e w' :=
  ⟨hturns ▸ h.nodup, fun t ha => hturns.symm ▸ h.seated t (hattached ▸ ha)⟩

theorem SavedBy.turns {l : WakeLedger} {pending : List EventId} {s : Saved}
    (h : SavedBy p w l pending s) : s.ledger.turns = l.turns := by
  obtain ⟨_, _, hledger⟩ := h.ledger
  rw [hledger]

theorem Seated.step (h : Seated e w) (hgood : w.Good p) {call : WakeCall}
    (hcall : Settling p e w call) : Seated e (w.step p call) := by
  cases call with
  | restart now watermark =>
    obtain ⟨-, hopened⟩ := hgood.restart now watermark
    have hturns : (w.step p (.restart now watermark)).ledger.turns = [] := hopened.turns
    exact ⟨by rw [hturns]; exact List.nodup_nil, fun t ha => absurd ha List.not_mem_nil⟩
  | admitEvent id now =>
    obtain ⟨_, _, _, _, _, _, heq⟩ := WakeLedger.admit_eq now w.ledger (p.event id)
    exact h.congr (by simp only [World.step, heq]) rfl
  | commit ids pending now ok =>
    by_cases hsaved : (w.ledger.commit w.disk (ids.map p.event) (pending.map p.event) now
        ok).outcome.isSaved = true
    · rw [step_commit_saved hsaved]
      obtain ⟨_, _, _, _, _, _, hall⟩ := WakeLedger.commitAll_eq (p := p) now (w.ledger, []) ids
      refine h.congr ((hgood.savedBy_commitAll ids pending now ok).turns.trans ?_) rfl
      rw [hall]
    · have hsaved := Bool.eq_false_iff.2 hsaved
      obtain ⟨-, -, -, _, _, _, _, _, _, _, hledger⟩ := WakeLedger.commit_unsaved
        hgood.ledger w.disk (pending.map p.event) now ok ids hsaved
      rw [step_commit_unsaved hsaved]
      exact h.congr (by rw [save, hledger]) rfl
  | attachToTurn turnId ids => exact h.attach hcall.turns
  | finishTurn turnId answered pending now ok =>
    refine h.finish ?_ rfl
    simp only [World.step, WakeLedger.finishTurn_eq]
    exact (savedBy_sync pending (l := w.ledger.finished turnId answered) hgood.written now ok).turns
  | takeStoppedEvent id => exact h.congr rfl rfl
  | settleAnswered id pending now ok =>
    exact h.congr (savedBy_sync pending (l := w.ledger.settledOne id) hgood.written now ok).turns rfl
  | reopenForRetry floor =>
    obtain ⟨-, ⟨_, _, _, _, _, _, _, _, _, heq, -⟩, -⟩ := WakeLedger.reopen_spec hgood.ledger floor
    exact h.congr (by simp only [World.step, heq]) rfl
  | forgetEvents ids pending now ok =>
    obtain ⟨-, ⟨_, _, _, _, _, heq⟩, -⟩ := WakeLedger.forget_spec hgood.ledger ids
    exact h.congr ((savedBy_writeSnapshot (p := p) pending (hgood.written_forgotten ids) now
      ok).turns.trans (by rw [heq])) rfl
  | sync pending now ok => exact h.congr (savedBy_sync pending hgood.written now ok).turns rfl

theorem answered_step (h : Seated e w) (hgood : w.Good p) {call : WakeCall}
    (ha : e ∈ (w.step p call).answered) :
    e ∈ w.answered ∨ (e ∈ w.begun ∧ ((w.step p call).ledger.track e).inFlight = none) := by
  cases call with
  | restart now watermark => exact absurd ha (Finset.notMem_empty e)
  | commit ids pending now ok =>
    refine .inl ?_
    simp only [step] at ha
    split at ha <;> exact ha
  | finishTurn turnId answered pending now ok =>
    cases answered with
    | false => exact .inl ha
    | true =>
      rcases Finset.mem_union.1 ha with ha | ha
      · exact .inl ha
      · obtain ⟨hb, hattached⟩ := Finset.mem_filter.1 ha
        obtain ⟨_, _, hledger⟩ := (savedBy_sync (p := p) pending
          (l := w.ledger.finished turnId true) hgood.written now ok).ledger
        have htrack := w.ledger.track_finished turnId true e
        rw [if_pos (h.settles hattached)] at htrack
        refine .inr ⟨hb, ?_⟩
        simp only [step, save, WakeLedger.finishTurn_eq, hledger]
        exact congrArg WakeLedger.Track.inFlight htrack
  | _ => exact .inl ha

def FileSettled (p : Published) (e : EventId) (f : LedgerFile) : Prop :=
  (p.event e ∈ f.handled ∧ ∀ x ∈ f.inFlight, x.id ≠ e) ∨
    saturatingAdd (p.createdAt e) (SINCE_SKEW_SECS + 1) ≤ f.evictedFloor

structure Answers (p : Published) (e : EventId) (w : World) : Prop where
  good : w.Good p
  inRange : p.createdAt e + SINCE_SKEW_SECS < U64_MAX
  seated : Seated e w
  started : e ∈ w.answered → e ∈ w.begun
  begun : e ∈ w.begun → w.ledger.Sealed p e ∨ (e ∈ w.ledger.handledIds ∧ e ∈ w.ledger.committed)
  answered : e ∈ w.answered → w.ledger.Sealed p e ∨ (e ∈ w.ledger.handledIds ∧
    e ∈ w.ledger.committed ∧ (w.ledger.track e).inFlight = none)
  earlier : e ∈ w.earlier → (e ∉ w.received ∧ e ∈ w.ledger.handledIds ∧
    (w.ledger.track e).inFlight = none) ∨ (w.ledger.Sealed p e ∧ ¬Replayable p w.ledger e)
  settled : e ∈ w.settled → (e ∈ w.answered ∨ e ∈ w.earlier) ∧
    ∃ f, w.disk = some f ∧ FileSettled p e f

theorem fileSettled_snapshot (h : w.Good p) {pending : List EventId}
    (hfree : w.ledger.Sealed p e ∨ (e ∈ w.ledger.handledIds ∧
      (e ∈ pending → e ∈ w.ledger.committed) ∧ (w.ledger.track e).inFlight = none)) (now : Nat) :
    FileSettled p e (w.ledger.snapshot (pending.map p.event) now) := by
  rcases hfree with hs | ⟨hk, hp, hf⟩
  · exact .inr hs
  · refine .inl ⟨(WakeLedger.mem_handled_snapshot h.ledger pending now e).2
      ⟨hk, fun hin => hin.2 (hp hin.1), hf⟩, ?_⟩
    rintro x hx rfl
    have hlook := (WakeLedger.mem_inFlight_snapshot h.ledger pending now x).1 hx
    rw [show w.ledger.inFlight.lookup x.id = none from hf] at hlook
    cases hlook

theorem Answers.restart (h : w.Answers p e) {now watermark : Nat}
    (hcall : Settling p e w (.restart now watermark)) :
    (w.step p (.restart now watermark)).Answers p e := by
  refine ⟨h.good.step _, h.inRange, h.seated.step h.good hcall, fun ha => absurd ha (Finset.notMem_empty e),
    fun hb => absurd hb (Finset.notMem_empty e), fun ha => absurd ha (Finset.notMem_empty e), fun he => ?_, fun he => ⟨.inr he, ?_⟩⟩
  · obtain ⟨-, f, hdisk, hf⟩ := h.settled he
    have hfits := hcall.orderly.readable rfl f hdisk
    obtain ⟨hopened, since, hsince, hle⟩ := h.good.restart_read hdisk hfits now watermark
    have hgone : (w.restart now watermark).ledger.Sealed p e → _ := fun hs =>
      And.intro hs (not_replayable_of_since h.inRange hs hsince hle)
    rcases hf with ⟨hin, hnone⟩ | hbelow
    · rcases hopened.kept e (.inl hin) with hk | hs
      · exact .inl ⟨Finset.notMem_empty e, hk, congrArg _ (hopened.trackOther e hnone)⟩
      · exact .inr (hgone hs)
    · exact .inr (hgone (Nat.le_trans hbelow hopened.floor))
  · exact (h.settled he).2

theorem earlier_step {call : WakeCall} (hrun : isRestart call = false) :
    (w.step p call).earlier = w.earlier := by
  cases call with
  | restart => cases hrun
  | commit ids pending now ok =>
    simp only [step]
    split <;> rfl
  | _ => rfl

theorem answered_mono {call : WakeCall} (hrun : isRestart call = false) (ha : e ∈ w.answered) :
    e ∈ (w.step p call).answered := by
  cases call with
  | restart => cases hrun
  | commit ids pending now ok =>
    simp only [step]
    split <;> exact ha
  | finishTurn turnId answered pending now ok =>
    cases answered with
    | false => exact ha
    | true => exact Finset.mem_union_left _ ha
  | _ => exact ha

theorem begun_mono {call : WakeCall} (hrun : isRestart call = false) (hb : e ∈ w.begun) :
    e ∈ (w.step p call).begun := by
  cases call with
  | restart => cases hrun
  | commit ids pending now ok =>
    simp only [step]
    split
    · exact Finset.mem_union_left _ hb
    · exact hb
  | _ => exact hb

section Moved

variable {l l' : WakeLedger} {new added : Prop} {t : WakeLedger.Track}

def Held (p : Published) (l : WakeLedger) (e : EventId) : Prop :=
  l.Sealed p e ∨ (e ∈ l.handledIds ∧ e ∈ l.committed)

theorem held_moved (hm : WakeLedger.Moved p l l' e new added t)
    (hk : l.Sealed p e ∨ ((e ∈ l.handledIds ∨ new) ∧ (e ∈ l.committed ∨ added))) :
    Held p l' e := by
  rcases hk with hs | ⟨hk, hc⟩
  · exact .inl (hs.mono hm.floor)
  · rcases hm.kept hk with hk' | hs
    · rcases hm.lost hc with hc' | hs
      · exact .inr ⟨hk', hc'⟩
      · exact .inl hs
    · exact .inl hs

theorem Held.moved (h : Held p l e) (hm : WakeLedger.Moved p l l' e new added t) : Held p l' e :=
  held_moved hm (h.imp_right fun ⟨hk, hc⟩ => ⟨.inl hk, .inl hc⟩)

end Moved

section Step

variable {call : WakeCall} (h : w.Answers p e) (hcall : Settling p e w call)
  (hrun : isRestart call = false)
include h hcall hrun

theorem begun_held (hb : e ∈ (w.step p call).begun) : Held p (w.step p call).ledger e := by
  have heffect := effect_step h.good e call
  generalize w.step p call = w' at *
  cases heffect with
  | restarted now watermark hc => exact absurd hc (ne_restart hrun now watermark)
  | kept moved _ begun => exact Held.moved (h.begun (begun.1 hb)) moved
  | admitted _ _ moved _ _ begun => exact Held.moved (h.begun (begun.1 hb)) moved
  | began _ _ moved => exact held_moved moved (.inr ⟨.inr trivial, .inr trivial⟩)
  | tried _ _ moved _ _ _ begun => exact Held.moved (h.begun (begun.1 hb)) moved
  | ended _ _ moved _ _ begun => exact Held.moved (h.begun (begun.1 hb)) moved
  | returned hc => exact absurd hc hcall.orderly.kept

theorem answered_idle (ha : e ∈ w.answered) : (w.step p call).ledger.Sealed p e ∨
    ((w.step p call).ledger.track e).inFlight = none := by
  have heffect := effect_step h.good e call
  have hfloor := heffect.floor (ne_restart hrun)
  rcases h.answered ha with hs | ⟨-, hc, hf⟩
  · exact .inl (hs.mono hfloor)
  generalize w.step p call = w' at *
  cases heffect with
  | restarted now watermark hr => exact absurd hr (ne_restart hrun now watermark)
  | kept moved => exact .inr (by rw [moved.track, hf])
  | admitted _ _ moved => exact .inr (by rw [moved.track]; exact hf)
  | began _ _ moved track =>
    rcases track with ⟨-, rfl⟩ | ⟨hsealed, -⟩
    · exact .inr (by rw [moved.track, hf])
    · exact .inl (hsealed.resolve_left fun hn => hn hc)
  | tried _ _ moved _ track => exact .inr (by rw [moved.track, track hcall.orderly.distinct, hf])
  | ended _ _ moved track => exact .inr (by rw [moved.track, track.1])
  | returned hr => exact absurd hr hcall.orderly.kept

omit hcall in
theorem answered_begun (ha : e ∈ (w.step p call).answered) : e ∈ (w.step p call).begun :=
  begun_mono hrun ((answered_step h.seated h.good ha).elim h.started And.left)

theorem answered_held (ha : e ∈ (w.step p call).answered) :
    (w.step p call).ledger.Sealed p e ∨ (e ∈ (w.step p call).ledger.handledIds ∧
      e ∈ (w.step p call).ledger.committed ∧
      ((w.step p call).ledger.track e).inFlight = none) := by
  have hidle : (w.step p call).ledger.Sealed p e ∨
      ((w.step p call).ledger.track e).inFlight = none := by
    rcases answered_step h.seated h.good ha with hold | ⟨-, hf⟩
    · exact answered_idle h hcall hrun hold
    · exact .inr hf
  rcases begun_held h hcall hrun (answered_begun h hrun ha) with hs | ⟨hk, hc⟩
  · exact .inl hs
  · exact hidle.imp_right fun hf => ⟨hk, hc, hf⟩

theorem earlier_barred (he : e ∈ (w.step p call).earlier) :
    (e ∉ (w.step p call).received ∧ e ∈ (w.step p call).ledger.handledIds ∧
      ((w.step p call).ledger.track e).inFlight = none) ∨
    ((w.step p call).ledger.Sealed p e ∧ ¬Replayable p (w.step p call).ledger e) := by
  have heffect := effect_step h.good e call
  have hkeep := hcall.orderly.retain h.good hrun
  rw [earlier_step hrun] at he
  generalize w.step p call = w' at *
  rcases h.earlier he with ⟨hr, hk, hf⟩ | ⟨hs, hgone⟩
  · cases heffect with
    | restarted now watermark hc => exact absurd hc (ne_restart hrun now watermark)
    | kept moved received =>
      refine (Barred.moved h.inRange (.inl hk) moved (hkeep hr)).imp_left fun hk' => ⟨?_, hk', ?_⟩
      · exact fun hr' => hr (received.1 hr')
      · rw [moved.track, hf]
    | admitted _ _ moved known received =>
      refine .inl ⟨fun hr' => (received.1 hr').elim hr fun hn => hn hk, known, ?_⟩
      rw [moved.track]
      exact hf
    | began listed => exact absurd (hcall.orderly.has_started listed) hr
    | tried listed => exact absurd (hcall.orderly.has_started listed) hr
    | ended _ _ moved track received =>
      refine (Barred.moved h.inRange (.inl hk) moved (hkeep hr)).imp_left fun hk' => ⟨?_, hk', ?_⟩
      · exact fun hr' => hr (received.1 hr')
      · rw [moved.track, track.1]
    | returned hc => exact absurd hc hcall.orderly.kept
  · refine .inr ?_
    cases heffect with
    | restarted now watermark hc => exact absurd hc (ne_restart hrun now watermark)
    | kept moved => exact gone_of_moved h.inRange moved hs hgone
    | admitted _ _ moved => exact gone_of_moved h.inRange moved hs hgone
    | began _ _ moved => exact gone_of_moved h.inRange moved hs hgone
    | tried _ _ moved => exact gone_of_moved h.inRange moved hs hgone
    | ended _ _ moved => exact gone_of_moved h.inRange moved hs hgone
    | returned hc => exact absurd hc hcall.orderly.kept

theorem settled_step (he : e ∈ (w.step p call).settled) :
    (e ∈ (w.step p call).answered ∨ e ∈ (w.step p call).earlier) ∧
      ∃ f, (w.step p call).disk = some f ∧ FileSettled p e f := by
  have hmono : e ∈ w.answered ∨ e ∈ w.earlier →
      e ∈ (w.step p call).answered ∨ e ∈ (w.step p call).earlier :=
    Or.imp (answered_mono hrun) fun hin => by rwa [earlier_step hrun]
  rcases saves_step h.good call with ⟨hdisk, hsame⟩ | ⟨now, hdisk, hsettled⟩
  · obtain ⟨hin, f, hf, hfile⟩ := h.settled (hsame ▸ he)
    exact ⟨hmono hin, f, hdisk.trans hf, hfile⟩
  · have hin : e ∈ (w.step p call).answered ∨ e ∈ (w.step p call).earlier := by
      rw [hsettled] at he
      exact (Finset.mem_union.1 he).elim (fun hold => hmono (h.settled hold).1) .inl
    refine ⟨hin, _, hdisk, fileSettled_snapshot (h.good.step call) ?_ now⟩
    rcases hin with ha | hea
    · exact (answered_held h hcall hrun ha).imp_right fun ⟨hk, hc, hf⟩ => ⟨hk, fun _ => hc, hf⟩
    · refine (earlier_barred h hcall hrun hea).symm.imp And.left fun ⟨hr, hk, hf⟩ =>
        ⟨hk, fun hwait => absurd ?_ hr, hf⟩
      exact (effect_step h.good e call).received_of (ne_restart hrun) hcall.orderly.kept
        (hcall.orderly.has_waiting hwait)

end Step

theorem Answers.step (h : w.Answers p e) {call : WakeCall} (hcall : Settling p e w call) :
    (w.step p call).Answers p e := by
  cases hrun : isRestart call with
  | true =>
    cases call with
    | restart now watermark => exact h.restart hcall
    | _ => cases hrun
  | false =>
    exact ⟨h.good.step call, h.inRange, h.seated.step h.good hcall, answered_begun h hrun, begun_held h hcall hrun, answered_held h hcall hrun,
      earlier_barred h hcall hrun, settled_step h hcall hrun⟩

theorem answers_start (hrange : p.createdAt e + SINCE_SKEW_SECS < U64_MAX)
    (relayUrl agentPubkey : String) (now watermark : Nat) :
    (start relayUrl agentPubkey now watermark).Answers p e := by
  obtain ⟨hgood, -⟩ := start_spec (p := p) relayUrl agentPubkey now watermark
  have hnone := Finset.notMem_empty e
  refine ⟨hgood, hrange, ⟨?_, fun t ha => absurd ha List.not_mem_nil⟩, fun ha => absurd ha hnone,
    fun hb => absurd hb hnone, fun ha => absurd ha hnone, fun he => absurd he hnone,
    fun he => absurd he hnone⟩
  exact List.nodup_nil

/-- In a run whose calls all meet the conditions, an event whose turn was started, answered and
saved in an earlier run is a duplicate whenever the relay may deliver it. -/
theorem answered_duplicate (p : Published) (relayUrl agentPubkey : String) (now watermark : Nat)
    (e : EventId) (hrange : p.createdAt e + SINCE_SKEW_SECS < U64_MAX) (calls : List WakeCall)
    (hrun : Along (step p) (Settling p e) (start relayUrl agentPubkey now watermark) calls)
    (he : e ∈ (runFrom (step p) (start relayUrl agentPubkey now watermark) calls).earlier)
    (hreplay : Replayable p (runFrom (step p) (start relayUrl agentPubkey now watermark) calls).ledger
      e) (seenAt : Nat) :
    ((runFrom (step p) (start relayUrl agentPubkey now watermark) calls).ledger.admitEvent (p.event e)
      seenAt).1 = .duplicate := by
  have hinv := hrun.preserves (fun _ _ h hcall => Answers.step h hcall)
    (answers_start hrange relayUrl agentPubkey now watermark)
  rw [WakeLedger.admit_duplicate_iff]
  rcases hinv.earlier he with ⟨-, hk, -⟩ | ⟨-, hgone⟩
  · exact hk
  · exact absurd hreplay hgone

section Eviction

def Delivered (p : Published) (w : World) (call : WakeCall) : Prop :=
  w.Disciplined call ∧ ∀ id ∈ admitting call, Replayable p w.ledger id

instance (p : Published) (w : World) (call : WakeCall) : Decidable (w.Delivered p call) :=
  inferInstanceAs (Decidable (_ ∧ _))

def newest (l : List HandledEvent) : List HandledEvent := l.drop (l.length - MAX_HANDLED)

theorem newest_append (l es : List HandledEvent) : newest (newest l ++ es) = newest (l ++ es) := by
  unfold newest
  generalize MAX_HANDLED = cap
  rw [← List.drop_append_of_le_length (Nat.sub_le l.length cap), List.drop_drop]
  congr 1
  simp only [List.length_drop, List.length_append]
  omega

theorem admit_new (h : w.Good p) {ids : List EventId} (hnodup : ids.Nodup)
    (hnew : ∀ id ∈ ids, id ∉ w.ledger.handledIds)
    (hreplay : ∀ id ∈ ids, Replayable p w.ledger id) (now : Nat)
    (hlen : newest w.ledger.handled = w.ledger.handled) :
    Along (step p) (Delivered p) w (ids.map (.admitEvent · now)) ∧
      (runFrom (step p) w (ids.map (.admitEvent · now))).Good p ∧
      (runFrom (step p) w (ids.map (.admitEvent · now))).ledger.handled =
        newest (w.ledger.handled ++ ids.map p.event) ∧
      (runFrom (step p) w (ids.map (.admitEvent · now))).ledger.catchUpSince = w.ledger.catchUpSince ∧
      (runFrom (step p) w (ids.map (.admitEvent · now))).earlier = w.earlier := by
  induction ids generalizing w with
  | nil => exact ⟨trivial, h, by simp [hlen], rfl, rfl⟩
  | cons id ids ih =>
    obtain ⟨hid, hnodup⟩ := List.nodup_cons.1 hnodup
    have hd : w.Disciplined (.admitEvent id now) := fun _ hin => absurd hin List.not_mem_nil
    obtain ⟨-, hfades, -, -⟩ := WakeLedger.admit_spec now h.ledger id
    obtain ⟨seen, hsnd⟩ := WakeLedger.admit_snd now w.ledger (p.event id)
    obtain ⟨_, _, _, _, _, _, heq⟩ := WakeLedger.admit_eq now w.ledger (p.event id)
    have hsince : (w.step p (.admitEvent id now)).ledger.catchUpSince = w.ledger.catchUpSince := by
      simp only [step, heq]
    have hhandled : (w.step p (.admitEvent id now)).ledger.handled =
        newest (w.ledger.handled ++ [p.event id]) := by
      simp only [step, hsnd]
      exact WakeLedger.handled_remember (hnew id List.mem_cons_self)
    have hnew' : ∀ k ∈ ids, k ∉ (w.step p (.admitEvent id now)).ledger.handledIds := by
      intro k hk hin
      rcases hfades.known k hin with hold | hself
      · exact hnew k (List.mem_cons_of_mem _ hk) hold
      · exact hid (List.mem_singleton.1 hself ▸ hk)
    obtain ⟨halong, hgood, hlist, hsince', hearlier⟩ := ih (h.step _) hnodup hnew'
      (fun k hk => by rw [Replayable, hsince]; exact hreplay k (List.mem_cons_of_mem _ hk))
      (by simpa [hhandled] using newest_append (w.ledger.handled ++ [p.event id]) [])
    refine ⟨⟨⟨hd, fun k hk => ?_⟩, halong⟩, hgood, ?_, hsince'.trans hsince, hearlier⟩
    · rw [List.mem_singleton.1 hk]
      exact hreplay id List.mem_cons_self
    · rw [List.map_cons, runFrom_cons, hlist, hhandled, newest_append]
      simp

theorem not_duplicate_after_admits (h : w.Good p) {ids : List EventId} (hnodup : ids.Nodup)
    (hnew : ∀ id ∈ ids, id ∉ w.ledger.handledIds) (hreplay : ∀ id, Replayable p w.ledger id)
    (now : Nat) (hlen : newest w.ledger.handled = w.ledger.handled)
    (hfull : ids.length = MAX_HANDLED) (he : e ∉ ids) :
    Along (step p) (Delivered p) w (ids.map (.admitEvent · now)) ∧
      (runFrom (step p) w (ids.map (.admitEvent · now))).earlier = w.earlier ∧
      Replayable p (runFrom (step p) w (ids.map (.admitEvent · now))).ledger e ∧
      ((runFrom (step p) w (ids.map (.admitEvent · now))).ledger.admitEvent (p.event e) now).1 ≠
        .duplicate := by
  obtain ⟨halong, hgood, hlist, hsince, hearlier⟩ :=
    admit_new h hnodup hnew (fun id _ => hreplay id) now hlen
  refine ⟨halong, hearlier, by rw [Replayable, hsince]; exact hreplay e, ?_⟩
  rw [Ne, WakeLedger.admit_duplicate_iff, show (p.event e).id = e from rfl, hgood.ledger.ids, hlist,
    newest, List.length_append, List.length_map, hfull, Nat.add_sub_cancel, List.drop_left,
    List.mem_map]
  rintro ⟨id, hid, heq⟩
  have hsame : id = e := congrArg HandledEvent.id heq
  exact he (hsame ▸ hid)

end Eviction

def answeredOnce : List WakeCall :=
  [.admitEvent mention 100, .commit [mention] [] 100 true, .attachToTurn "turn" [mention],
    .finishTurn "turn" true [] 100 true, .restart 200 200]

theorem answered_duplicate_once :
    Along (step atHundred) (Settling atHundred mention) (start "wss://relay" "agent" 100 100)
        answeredOnce ∧
      ((runFrom (step atHundred) (start "wss://relay" "agent" 100 100) answeredOnce).ledger.admitEvent
        (atHundred.event mention) 200).1 = .duplicate := by
  have hrun : Along (step atHundred) (Settling atHundred mention)
      (start "wss://relay" "agent" 100 100) answeredOnce := by decide +kernel
  exact ⟨hrun, answered_duplicate _ _ _ _ _ _ (by decide) _ hrun (by decide +kernel) (by decide +kernel) 200⟩

def others : List EventId := (List.range MAX_HANDLED).map fun i => ⟨BitVec.ofNat 256 (i + 2)⟩

theorem others_nodup : others.Nodup := by
  refine List.Nodup.map_on (fun i hi j hj heq => ?_) List.nodup_range
  rw [List.mem_range, MAX_HANDLED] at hi hj
  have hbits := congrArg (fun id : EventId => id.bits.toNat) heq
  simp only [BitVec.toNat_ofNat] at hbits
  omega

theorem mention_notMem_others : mention ∉ others := by
  intro hin
  obtain ⟨i, hi, heq⟩ := List.mem_map.1 hin
  rw [List.mem_range, MAX_HANDLED] at hi
  have hbits := congrArg (fun id : EventId => id.bits.toNat) heq
  have hone : mention.bits.toNat = 1 := by decide
  simp only [BitVec.toNat_ofNat, hone] at hbits
  omega

theorem evicted_not_duplicate :
    let w := runFrom (step atHundred) firstOpen (answeredOnce ++ others.map (.admitEvent · 200))
    Along (step atHundred) (Delivered atHundred) firstOpen
        (answeredOnce ++ others.map (.admitEvent · 200)) ∧
      mention ∈ w.earlier ∧ Replayable atHundred w.ledger mention ∧
      (w.ledger.admitEvent (atHundred.event mention) 200).1 ≠ .duplicate := by
  have hbefore : Along (step atHundred) (Delivered atHundred) firstOpen answeredOnce := by
    decide +kernel
  have hgood : (runFrom (step atHundred) firstOpen answeredOnce).Good atHundred :=
    hbefore.preserves (fun _ call h _ => h.step call) (start_spec _ _ _ _).1
  have hknown : ∀ id ∈ (runFrom (step atHundred) firstOpen answeredOnce).ledger.handledIds,
      id = mention := by decide +kernel
  have hearlier : mention ∈ (runFrom (step atHundred) firstOpen answeredOnce).earlier := by
    decide +kernel
  have hsince : Replayable atHundred (runFrom (step atHundred) firstOpen answeredOnce).ledger
      mention := by decide +kernel
  have hlen : newest (runFrom (step atHundred) firstOpen answeredOnce).ledger.handled =
      (runFrom (step atHundred) firstOpen answeredOnce).ledger.handled := by decide +kernel
  have hlong : others.length = MAX_HANDLED := by rw [others, List.length_map, List.length_range]
  have hnodup := others_nodup
  have hnot := mention_notMem_others
  rw [along_append, runFrom_append]
  generalize runFrom (step atHundred) firstOpen answeredOnce = v at *
  generalize others = ids at *
  obtain ⟨halong, hkept, hreplay, hadmit⟩ := not_duplicate_after_admits hgood hnodup
    (fun id hid hin => hnot (hknown id hin ▸ hid)) (fun _ => hsince) 200 hlen hlong hnot
  exact ⟨⟨hbefore, halong⟩, hkept ▸ hearlier, hreplay, hadmit⟩

end World

end Colony.Acp
