import Colony.Defs.Acp.WakeRuns

namespace Colony.Acp

open Colony.Data Colony.Core

namespace World

variable {p : Published} {w w' : World} {e : EventId}

structure Counting (p : Published) (e : EventId) (w : World) (call : WakeCall) : Prop where
  orderly : Orderly p e w call
  unanswered : e ∉ ending w call
  uncrashed : isRestart call = true → (w.ledger.carried.lookup e).isSome = true →
    (w.disk.any fun f => decide (e ∈ f.inFlight.map (·.id))) = true

instance (p : Published) (e : EventId) (w : World) (call : WakeCall) :
    Decidable (Counting p e w call) :=
  decidable_of_iff (Orderly p e w call ∧ e ∉ ending w call ∧
      (isRestart call = true → (w.ledger.carried.lookup e).isSome = true →
        (w.disk.any fun f => decide (e ∈ f.inFlight.map (·.id))) = true))
    ⟨fun ⟨h₁, h₂, h₃⟩ => ⟨h₁, h₂, h₃⟩, fun ⟨h₁, h₂, h₃⟩ => ⟨h₁, h₂, h₃⟩⟩

inductive Recorded (p : Published) (e : EventId) (w : World) : Prop
  | unstarted (fresh : e ∉ w.begun) (idle : (w.ledger.track e).inFlight = none)
      (carried : (w.ledger.track e).carried = none) (count : w.runs e = 0)
  | carried (fresh : e ∉ w.begun) (idle : (w.ledger.track e).inFlight = none)
      (carried : (w.ledger.track e).carried = some (w.runs e))
      (le : w.runs e ≤ MAX_REDELIVERIES)
  | flying (begun : e ∈ w.begun) (x : InFlightEvent)
      (flying : (w.ledger.track e).inFlight = some x)
      (carried : (w.ledger.track e).carried = none) (count : x.restarts + 1 = w.runs e)
      (le : w.runs e ≤ 1 + MAX_REDELIVERIES)
  | paused (fresh : e ∉ w.begun) (x : InFlightEvent)
      (flying : (w.ledger.track e).inFlight = some x)
      (carried : (w.ledger.track e).carried = none) (count : x.restarts + 1 = w.runs e)
      (le : w.runs e ≤ 1 + MAX_REDELIVERIES)
      (unreceived : e ∉ w.received) (barred : Barred p w.ledger e)
  | finished (fresh : e ∉ w.begun) (idle : (w.ledger.track e).inFlight = none)
      (carried : (w.ledger.track e).carried = none) (le : w.runs e ≤ 1 + MAX_REDELIVERIES)
      (unreceived : e ∉ w.received) (barred : Barred p w.ledger e)

def FileRecorded (p : Published) (e : EventId) (w : World) (f : LedgerFile) : Prop :=
  (∃ x ∈ f.inFlight, x.id = e ∧ x.restarts + 1 = w.runs e ∧ w.runs e ≤ 1 + MAX_REDELIVERIES) ∨
    ((∀ x ∈ f.inFlight, x.id ≠ e) ∧
      (w.runs e = 0 ∨ (w.ledger.track e).carried ≠ none ∨
        (w.runs e ≤ 1 + MAX_REDELIVERIES ∧
          (p.event e ∈ f.handled ∨ saturatingAdd (p.createdAt e) (SINCE_SKEW_SECS + 1) ≤ f.evictedFloor))))

structure Limited (p : Published) (e : EventId) (w : World) : Prop where
  good : w.Good p
  inRange : p.createdAt e + SINCE_SKEW_SECS < U64_MAX
  committed : e ∈ w.ledger.committed → e ∈ w.begun
  recorded : w.Recorded p e
  file : ∀ f, w.disk = some f → FileRecorded p e w f
  unsaved : w.disk = none → w.runs e = 0

theorem Recorded.le (h : w.Recorded p e) : w.runs e ≤ 1 + MAX_REDELIVERIES := by
  cases h with
  | unstarted _ _ _ count => omega
  | carried _ _ _ le => omega
  | flying _ _ _ _ _ le => exact le
  | paused _ _ _ _ _ le => exact le
  | finished _ _ _ le => exact le

theorem Recorded.congr (h : w.Recorded p e)
    (hflying : (w'.ledger.track e).inFlight = (w.ledger.track e).inFlight)
    (hcarried : (w'.ledger.track e).carried = (w.ledger.track e).carried)
    (hbegun : e ∈ w'.begun ↔ e ∈ w.begun) (hruns : w'.runs e = w.runs e)
    (hbarred : e ∉ w.received → Barred p w.ledger e → e ∉ w'.received ∧ Barred p w'.ledger e) :
    w'.Recorded p e := by
  have hfresh := mt hbegun.1
  cases h with
  | unstarted fresh idle carried count =>
    exact .unstarted (hfresh fresh) (hflying.trans idle) (hcarried.trans carried) (hruns.trans count)
  | carried fresh idle carried le =>
    exact .carried (hfresh fresh) (hflying.trans idle) (by rw [hcarried, carried, hruns])
      (hruns ▸ le)
  | flying begun x flying carried count le =>
    exact .flying (hbegun.2 begun) x (hflying.trans flying) (hcarried.trans carried)
      (count.trans hruns.symm) (hruns ▸ le)
  | paused fresh x flying carried count le unreceived barred =>
    obtain ⟨hr, hb⟩ := hbarred unreceived barred
    exact .paused (hfresh fresh) x (hflying.trans flying) (hcarried.trans carried)
      (count.trans hruns.symm) (hruns ▸ le) hr hb
  | finished fresh idle carried le unreceived barred =>
    obtain ⟨hr, hb⟩ := hbarred unreceived barred
    exact .finished (hfresh fresh) (hflying.trans idle) (hcarried.trans carried) (hruns ▸ le) hr hb

theorem Limited.recorded_step (hl : w.Limited p e) {call : WakeCall} (hcall : Counting p e w call)
    (hrun : isRestart call = false) : (w.step p call).Recorded p e := by
  have h := hl.recorded
  have heffect := effect_step hl.good e call
  have hkeep := hcall.orderly.retain hl.good hrun
  generalize w.step p call = w' at *
  cases heffect with
  | restarted now watermark hc => exact absurd hc (ne_restart hrun now watermark)
  | kept moved received begun runs =>
    refine h.congr (by rw [moved.track]) (by rw [moved.track]) begun runs fun hr hb => ?_
    exact ⟨fun hr' => hr (received.1 hr'), hb.moved hl.inRange moved (hkeep hr)⟩
  | admitted now hc moved known received begun runs =>
    refine h.congr (by rw [moved.track]) (by rw [moved.track]) begun runs fun hr hb => ?_
    have hk : e ∈ w.ledger.handledIds := hb.resolve_right fun hgone =>
      hgone.2 (hcall.orderly.relayed (by rw [hc]; exact List.mem_singleton_self e))
    exact ⟨fun hr' => (received.1 hr').elim hr fun hnot => hnot hk, .inl known⟩
  | began listed t moved track received begun runs saved =>
    have had := hcall.orderly.has_started listed
    have hstart : e ∉ w.begun → ∃ now, t = (w.ledger.track e).start (p.event e) now := fun hfresh =>
      (track.resolve_left fun hc => hfresh (hl.committed hc.1)).2
    cases h with
    | unstarted fresh idle carried count =>
      obtain ⟨now, rfl⟩ := hstart fresh
      rw [if_neg fresh, count] at runs
      refine .flying begun _ (by rw [moved.track]; rfl) (by rw [moved.track]; rfl) ?_ (by omega)
      rw [runs, WakeLedger.Track.restarts, idle, carried]
      rfl
    | carried fresh idle carried le =>
      obtain ⟨now, rfl⟩ := hstart fresh
      rw [if_neg fresh] at runs
      refine .flying begun _ (by rw [moved.track]; rfl) (by rw [moved.track]; rfl) ?_ (by omega)
      rw [runs, WakeLedger.Track.restarts, carried]
      rfl
    | flying hbegun x flying carried count le =>
      rw [if_pos hbegun] at runs
      rcases track with ⟨-, rfl⟩ | ⟨-, now, rfl⟩
      · exact .flying begun x (by rw [moved.track, flying]) (by rw [moved.track, carried])
          (count.trans runs.symm) (by omega)
      · refine .flying begun _ (by rw [moved.track]; rfl) (by rw [moved.track]; rfl) ?_ (by omega)
        rw [runs, ← count, WakeLedger.Track.restarts, flying, carried]
        rfl
    | paused _ _ _ _ _ _ unreceived => exact absurd had unreceived
    | finished _ _ _ _ unreceived => exact absurd had unreceived
  | tried listed t moved _ track received begun runs =>
    have hsame := moved.track.trans (track hcall.orderly.distinct)
    exact h.congr (by rw [hsame]) (by rw [hsame]) begun runs fun hr =>
      absurd (hcall.orderly.has_started listed) hr
  | ended hc => exact absurd hc hcall.unanswered
  | returned hc => exact absurd hc hcall.orderly.kept

theorem Counting.listed {call : WakeCall} (h : Counting p e w call) (hrun : isRestart call = true)
    (hcarried : (w.ledger.track e).carried ≠ none) {f : LedgerFile} (hdisk : w.disk = some f) :
    ∃ x ∈ f.inFlight, x.id = e := by
  have hany := h.uncrashed hrun (Option.isSome_iff_ne_none.2 hcarried)
  rw [hdisk, Option.any_some, decide_eq_true_eq, List.mem_map] at hany
  exact hany

theorem restarts_of_recovery {now : Nat} {x : InFlightEvent}
    (h : WakeLedger.recovery now x ≠ .giveUp) : x.restarts + 1 ≤ MAX_REDELIVERIES := by
  unfold WakeLedger.recovery at h
  by_contra hlt
  rw [if_pos (by omega)] at h
  exact h rfl

theorem Limited.restart (h : w.Limited p e) {now watermark : Nat}
    (hcall : Counting p e w (.restart now watermark)) :
    (w.restart now watermark).Recorded p e := by
  have hfresh : e ∉ (w.restart now watermark).begun := Finset.notMem_empty e
  have hunreceived : e ∉ (w.restart now watermark).received := Finset.notMem_empty e
  cases hdisk : w.disk with
  | none =>
    obtain ⟨-, hopened⟩ := h.good.restart now watermark
    rw [hdisk] at hopened
    have htrack := hopened.trackOther e fun x hx => absurd hx List.not_mem_nil
    exact .unstarted hfresh (congrArg WakeLedger.Track.inFlight htrack)
      (congrArg WakeLedger.Track.carried htrack) (h.unsaved hdisk)
  | some f =>
    have hfits := hcall.orderly.readable rfl f hdisk
    obtain ⟨hopened, -⟩ := h.good.restart_read hdisk hfits now watermark
    have hbarred := h.good.barred_restart hdisk hfits now watermark h.inRange
    rcases h.file f hdisk with ⟨x, hx, rfl, hcount, hle⟩ | ⟨hnone, hrest⟩
    · have htrack := hopened.track x hx
      have hbarred' : WakeLedger.recovery now x ≠ .deliver → _ := fun hne =>
        hbarred (.inl (.inr (.inr ⟨x, hx, rfl, hne⟩)))
      cases hr : WakeLedger.recovery now x with
      | giveUp =>
        rw [hr] at htrack hbarred'
        exact .finished hfresh (by rw [htrack]) (by rw [htrack]) hle hunreceived
          (hbarred' (by decide))
      | pause =>
        rw [hr] at htrack hbarred'
        exact .paused hfresh x (by rw [htrack]) (by rw [htrack]) hcount hle hunreceived
          (hbarred' (by decide))
      | deliver =>
        have hlt := restarts_of_recovery (show WakeLedger.recovery now x ≠ .giveUp by rw [hr]; decide)
        rw [hr] at htrack
        exact .carried hfresh (by rw [htrack]) (by rw [htrack]; exact congrArg some hcount)
          (hcount ▸ hlt)
    · have htrack := hopened.trackOther e hnone
      have hidle := congrArg WakeLedger.Track.inFlight htrack
      have hcarried := congrArg WakeLedger.Track.carried htrack
      rcases hrest with hzero | hcarry | ⟨hle, hin⟩
      · exact .unstarted hfresh hidle hcarried hzero
      · obtain ⟨x, hx, hid⟩ := hcall.listed rfl hcarry hdisk
        exact absurd hid (hnone x hx)
      · exact .finished hfresh hidle hcarried hle hunreceived
          (hbarred (hin.imp_left .inl))

theorem fileRecorded_snapshot (hgood : w.Good p) (h : w.Recorded p e) {pending : List EventId}
    (hpending : e ∈ pending → e ∈ w.received) (now : Nat) :
    FileRecorded p e w (w.ledger.snapshot (pending.map p.event) now) := by
  have hlisted := fun x => WakeLedger.mem_inFlight_snapshot hgood.ledger pending now x
  have hflying : ∀ x, (w.ledger.track e).inFlight = some x → x.restarts + 1 = w.runs e →
      w.runs e ≤ 1 + MAX_REDELIVERIES →
      FileRecorded p e w (w.ledger.snapshot (pending.map p.event) now) := by
    intro x hx hcount hle
    obtain ⟨rfl, -⟩ := hgood.ledger.inFlight e x hx
    exact .inl ⟨x, (hlisted x).2 hx, rfl, hcount, hle⟩
  have hidle : (w.ledger.track e).inFlight = none →
      ∀ x ∈ (w.ledger.snapshot (pending.map p.event) now).inFlight, x.id ≠ e := by
    rintro hnone x hx rfl
    have hlook := (hlisted x).1 hx
    rw [show w.ledger.inFlight.lookup x.id = none from hnone] at hlook
    cases hlook
  cases h with
  | unstarted fresh idle carried count => exact .inr ⟨hidle idle, .inl count⟩
  | carried fresh idle carried le =>
    exact .inr ⟨hidle idle, .inr (.inl (by rw [carried]; exact Option.some_ne_none _))⟩
  | flying begun x flying carried count le => exact hflying x flying count le
  | paused fresh x flying carried count le => exact hflying x flying count le
  | finished fresh idle carried le unreceived barred =>
    refine .inr ⟨hidle idle, .inr (.inr ⟨le, barred.imp (fun hk => ?_) And.left⟩)⟩
    exact (WakeLedger.mem_handled_snapshot hgood.ledger pending now e).2
      ⟨hk, fun hin => unreceived (hpending hin.1), idle⟩

theorem FileRecorded.congr {f : LedgerFile} (h : FileRecorded p e w f)
    (hruns : w'.runs e = w.runs e)
    (hcarried : (w.ledger.track e).carried ≠ none →
      (w'.ledger.track e).carried ≠ none ∨ ∃ x ∈ f.inFlight, x.id = e) :
    FileRecorded p e w' f := by
  unfold FileRecorded at h ⊢
  rw [hruns]
  rcases h with h | ⟨hnone, hrest⟩
  · exact .inl h
  · refine .inr ⟨hnone, hrest.imp_right (Or.imp_left fun hc => ?_)⟩
    exact (hcarried hc).resolve_right fun ⟨x, hx, hid⟩ => hnone x hx hid

theorem saves_or_same (h : w.Limited p e) {call : WakeCall} (hcall : Counting p e w call)
    (hrun : isRestart call = false) :
    (∃ now, (w.step p call).disk =
      some ((w.step p call).ledger.snapshot ((waiting call).map p.event) now)) ∨
    ((w.step p call).disk = w.disk ∧ (w.step p call).runs e = w.runs e ∧
      ((w.step p call).ledger.track e).carried = (w.ledger.track e).carried) := by
  have hsaves := (saves_step h.good call).disk.symm
  have heffect := effect_step h.good e call
  generalize w.step p call = w' at *
  cases heffect with
  | restarted now watermark hc => exact absurd hc (ne_restart hrun now watermark)
  | kept moved _ _ runs => exact hsaves.imp_right fun hdisk => ⟨hdisk, runs, by rw [moved.track]⟩
  | admitted _ _ moved _ _ _ runs =>
    exact hsaves.imp_right fun hdisk => ⟨hdisk, runs, by rw [moved.track]⟩
  | began _ _ _ _ _ _ _ saved => exact .inl saved
  | tried _ _ moved _ track _ _ runs =>
    exact hsaves.imp_right fun hdisk => ⟨hdisk, runs, by rw [moved.track, track hcall.orderly.distinct]⟩
  | ended hc => exact absurd hc hcall.unanswered
  | returned hc => exact absurd hc hcall.orderly.kept

theorem committed_begun (h : w.Limited p e) {call : WakeCall} (hcall : Counting p e w call)
    (hrun : isRestart call = false) (hc : e ∈ (w.step p call).ledger.committed) :
    e ∈ (w.step p call).begun := by
  have heffect := effect_step h.good e call
  generalize w.step p call = w' at *
  cases heffect with
  | restarted now watermark hr => exact absurd hr (ne_restart hrun now watermark)
  | kept moved _ begun => exact begun.2 (h.committed ((moved.committed hc).resolve_right id))
  | admitted _ _ moved _ _ begun =>
    exact begun.2 (h.committed ((moved.committed hc).resolve_right id))
  | began _ _ _ _ _ begun => exact begun
  | tried _ _ moved _ _ _ begun => exact begun.2 (h.committed ((moved.committed hc).resolve_right id))
  | ended hc => exact absurd hc hcall.unanswered
  | returned hc => exact absurd hc hcall.orderly.kept

theorem Limited.step (h : w.Limited p e) {call : WakeCall} (hcall : Counting p e w call) :
    (w.step p call).Limited p e := by
  have hgood := h.good.step call
  cases hrun : isRestart call with
  | true =>
    cases call with
    | restart now watermark =>
      obtain ⟨-, hopened⟩ := h.good.restart now watermark
      refine ⟨hgood, h.inRange, fun hc => ?_, h.restart hcall, fun f hf => ?_, h.unsaved⟩
      · rw [show (w.step p (.restart now watermark)).ledger.committed = ∅ from hopened.committed] at hc
        exact absurd hc (Finset.notMem_empty e)
      · exact (h.file f hf).congr rfl fun hc => .inr (hcall.listed rfl hc hf)
    | _ => cases hrun
  | false =>
    have hrecorded := h.recorded_step hcall hrun
    have hpending : e ∈ waiting call → e ∈ (w.step p call).received := fun hin =>
      (effect_step h.good e call).received_of (ne_restart hrun) hcall.orderly.kept
        (hcall.orderly.has_waiting hin)
    have hsame := saves_or_same h hcall hrun
    refine ⟨hgood, h.inRange, committed_begun h hcall hrun, hrecorded, fun f hf => ?_, fun hnone => ?_⟩
    · rcases hsame with ⟨now, hdisk⟩ | ⟨hdisk, hruns, hcarried⟩
      · rw [hdisk] at hf
        cases hf
        exact fileRecorded_snapshot hgood hrecorded hpending now
      · exact (h.file f (hdisk ▸ hf)).congr hruns fun hc => .inl (hcarried.symm ▸ hc)
    · rcases hsame with ⟨now, hdisk⟩ | ⟨hdisk, hruns, -⟩
      · rw [hdisk] at hnone
        cases hnone
      · exact hruns.trans (h.unsaved (hdisk ▸ hnone))

theorem limited_start (hrange : p.createdAt e + SINCE_SKEW_SECS < U64_MAX)
    (relayUrl agentPubkey : String) (now watermark : Nat) :
    (start relayUrl agentPubkey now watermark).Limited p e := by
  obtain ⟨hgood, htrack, -, hcommitted, -⟩ := start_spec (p := p) relayUrl agentPubkey now watermark
  refine ⟨hgood, hrange, fun hc => ?_, .unstarted (Finset.notMem_empty e) (by rw [htrack])
    (by rw [htrack]) rfl, fun f hf => (Option.some_ne_none f hf.symm).elim, fun _ => rfl⟩
  rw [hcommitted] at hc
  exact absurd hc (Finset.notMem_empty e)

/-- An event that is not answered and not handed back is saved as started in at most
`1 + MAX_REDELIVERIES` runs. -/
theorem started_at_most (p : Published) (relayUrl agentPubkey : String) (now watermark : Nat)
    (e : EventId) (hrange : p.createdAt e + SINCE_SKEW_SECS < U64_MAX) (calls : List WakeCall)
    (hrun : Along (step p) (Counting p e) (start relayUrl agentPubkey now watermark) calls) :
    (runFrom (step p) (start relayUrl agentPubkey now watermark) calls).runs e ≤
      1 + MAX_REDELIVERIES :=
  (hrun.preserves (fun _ _ h hcall => Limited.step h hcall)
    (limited_start hrange relayUrl agentPubkey now watermark)).recorded.le

def interrupted : List WakeCall :=
  [.sync [] 100 true, .admitEvent mention 100, .commit [mention] [] 100 true,
    .restart 200 200, .sync [] 200 true, .admitEvent mention 200, .commit [mention] [] 200 true,
    .restart 300 300, .sync [] 300 true, .admitEvent mention 300, .commit [mention] [] 300 true,
    .restart 500 500, .sync [] 500 true, .admitEvent mention 500, .commit [mention] [] 500 true,
    .restart 900 900, .sync [] 900 true, .admitEvent mention 900]

theorem started_at_most_interrupted :
    Along (step atHundred) (Counting atHundred mention) (start "wss://relay" "agent" 100 100)
        interrupted ∧
      (runFrom (step atHundred) (start "wss://relay" "agent" 100 100) interrupted).runs mention ≤
        1 + MAX_REDELIVERIES := by
  have hrun : Along (step atHundred) (Counting atHundred mention)
      (start "wss://relay" "agent" 100 100) interrupted := by decide +kernel
  exact ⟨hrun, started_at_most _ _ _ _ _ _ (by decide) _ hrun⟩

/-- Runs that open, save at once as the listener does, start the event's turn, and crash; with a
run between that crashes right after its first save. -/
def lostCounts : List WakeCall :=
  [.sync [] 100 true, .admitEvent mention 100, .commit [mention] [] 100 true,
    .restart 200 200, .sync [] 200 true,
    .restart 300 300, .sync [] 300 true, .admitEvent mention 300, .commit [mention] [] 300 true,
    .restart 400 400, .sync [] 400 true,
    .restart 500 500, .sync [] 500 true, .admitEvent mention 500, .commit [mention] [] 500 true,
    .restart 600 600, .sync [] 600 true,
    .restart 700 700, .sync [] 700 true, .admitEvent mention 700, .commit [mention] [] 700 true,
    .restart 800 800, .sync [] 800 true,
    .restart 900 900, .sync [] 900 true, .admitEvent mention 900, .commit [mention] [] 900 true]

theorem started_five_times :
    Along (step atHundred) (fun w call => Orderly atHundred mention w call ∧ mention ∉ ending w call)
        firstOpen lostCounts ∧
      (runFrom (step atHundred) firstOpen lostCounts).runs mention = 5 := by
  decide +kernel

end World

end Colony.Acp
