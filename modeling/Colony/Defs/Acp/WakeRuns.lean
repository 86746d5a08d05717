import Colony.Defs.Acp.WakeLedgerCalls
import Colony.Defs.Data.Run

namespace Colony.Acp

open Colony.Data Colony.Core

/-- The ledger, its file, and what happened so far: the events this run received and still has, the
turns they are in, those whose turn was saved as started in this run, those whose turn was then
answered, those whose answer was saved, and the saved ones of earlier runs; and in how many runs
each event's turn was saved as started. -/
structure World where
  ledger : WakeLedger
  disk : Option LedgerFile
  received : Finset EventId
  attached : List (String × EventId)
  begun : Finset EventId
  answered : Finset EventId
  settled : Finset EventId
  earlier : Finset EventId
  runs : EventId → Nat

inductive WakeCall
  | restart (now watermark : Nat)
  | admitEvent (id : EventId) (now : Nat)
  | commit (ids pending : List EventId) (now : Nat) (ok : Bool)
  | attachToTurn (turnId : String) (ids : List EventId)
  | finishTurn (turnId : String) (answered : Bool) (pending : List EventId) (now : Nat) (ok : Bool)
  | takeStoppedEvent (id : EventId)
  | settleAnswered (id : EventId) (pending : List EventId) (now : Nat) (ok : Bool)
  | reopenForRetry (floor : Nat)
  | forgetEvents (ids pending : List EventId) (now : Nat) (ok : Bool)
  | sync (pending : List EventId) (now : Nat) (ok : Bool)

namespace World

def start (relayUrl agentPubkey : String) (now watermark : Nat) : World :=
  { ledger := .openFile none relayUrl agentPubkey now watermark
    disk := none
    received := ∅
    attached := []
    begun := ∅
    answered := ∅
    settled := ∅
    earlier := ∅
    runs := fun _ => 0 }

def restart (w : World) (now watermark : Nat) : World :=
  { w with
    ledger := .openFile w.disk w.ledger.relayUrl w.ledger.agentPubkey now watermark
    received := ∅
    attached := []
    begun := ∅
    answered := ∅
    earlier := w.settled }

def save (w : World) (s : Saved) : World :=
  { w with
    ledger := s.ledger
    disk := s.disk
    settled := if s.outcome.isSaved then w.settled ∪ w.answered else w.settled }

def step (p : Published) (w : World) : WakeCall → World
  | .restart now watermark => w.restart now watermark
  | .admitEvent id now =>
    let (admission, ledger) := w.ledger.admitEvent (p.event id) now
    { w with
      ledger := ledger
      received := if admission = .duplicate then w.received else insert id w.received }
  | .commit ids pending now ok =>
    let s := w.ledger.commit w.disk (ids.map p.event) (pending.map p.event) now ok
    if s.outcome.isSaved then
      { w.save s with
        begun := w.begun ∪ ids.toFinset
        runs := fun e => if e ∈ ids ∧ e ∉ w.begun then w.runs e + 1 else w.runs e }
    else w.save s
  | .attachToTurn turnId ids =>
    { w with
      ledger := w.ledger.attachToTurn turnId ids
      attached := w.attached ++ ids.map fun id => (turnId, id) }
  | .finishTurn turnId answered pending now ok =>
    let ended := { w with
      attached := w.attached.filter fun a => !decide (a.1 = turnId)
      answered := if answered then w.answered ∪ w.begun.filter fun e => (turnId, e) ∈ w.attached
        else w.answered }
    ended.save (w.ledger.finishTurn w.disk turnId answered (pending.map p.event) now ok)
  | .takeStoppedEvent id => { w with ledger := (w.ledger.takeStoppedEvent id).2 }
  | .settleAnswered id pending now ok =>
    w.save (w.ledger.settleAnswered w.disk id (pending.map p.event) now ok)
  | .reopenForRetry floor =>
    { w with
      ledger := (w.ledger.reopenForRetry floor).2
      received := w.received \ ((w.ledger.reopened floor).map (·.1)).toFinset }
  | .forgetEvents ids pending now ok =>
    { w with received := w.received \ ids.toFinset }.save
      (w.ledger.forgetEvents w.disk ids (pending.map p.event) now ok)
  | .sync pending now ok => w.save (w.ledger.sync w.disk (pending.map p.event) now ok)

def waiting : WakeCall → List EventId
  | .commit _ pending _ _ | .finishTurn _ _ pending _ _ | .settleAnswered _ pending _ _
  | .forgetEvents _ pending _ _ | .sync pending _ _ => pending
  | _ => []

def starting : WakeCall → List EventId
  | .commit ids _ _ _ => ids
  | _ => []

/-- The listener starts turns for, and keeps waiting, only events it received and still has. -/
def Disciplined (w : World) (call : WakeCall) : Prop :=
  ∀ id ∈ starting call ++ waiting call, id ∈ w.received

instance (w : World) (call : WakeCall) : Decidable (w.Disciplined call) :=
  inferInstanceAs (Decidable (∀ id ∈ _, _))

variable {p : Published} {w w' : World}

/-- The ledger is sound, the file is this listener's, and the ledger knows what it last wrote. -/
structure Good (p : Published) (w : World) : Prop where
  ledger : w.ledger.Sound p
  file : ∀ f, w.disk = some f → WakeLedger.FileSound p f ∧ f.version = FILE_VERSION ∧
    f.relayUrl = w.ledger.relayUrl ∧ f.agentPubkey = w.ledger.agentPubkey
  written : ∀ f, w.ledger.written = some f → w.disk = some f

def Saves (p : Published) (w w' : World) (pending : List EventId) : Prop :=
  (w'.disk = w.disk ∧ w'.settled = w.settled) ∨
    ∃ now, w'.disk = some (w'.ledger.snapshot (pending.map p.event) now) ∧
      w'.settled = w.settled ∪ w'.answered

theorem Saves.disk {pending : List EventId} (h : Saves p w w' pending) :
    w'.disk = w.disk ∨ ∃ now, w'.disk = some (w'.ledger.snapshot (pending.map p.event) now) :=
  h.imp And.left fun ⟨now, hdisk, _⟩ => ⟨now, hdisk⟩

structure SavedBy (p : Published) (w : World) (l : WakeLedger) (pending : List EventId)
    (s : Saved) : Prop where
  ledger : ∃ written retryAt, s.ledger = { l with written := written, retryAt := retryAt }
  disk : ∃ now, s.disk =
    if s.outcome.isSaved then some (l.snapshot (pending.map p.event) now) else w.disk
  written : ∀ f, s.ledger.written = some f → s.disk = some f

section Save

variable {l : WakeLedger} (pending : List EventId) {s : Saved}

theorem savedBy_writeSnapshot (hw : ∀ f, l.written = some f → w.disk = some f) (now : Nat)
    (ok : Bool) : SavedBy p w l pending (l.writeSnapshot w.disk (pending.map p.event) now ok) := by
  obtain ⟨hdisk, hwritten⟩ := l.writeSnapshot_disk w.disk (pending.map p.event) now ok hw
  exact ⟨l.writeSnapshot_eq _ _ _ _, ⟨now, hdisk⟩, hwritten⟩

theorem savedBy_sync (hw : ∀ f, l.written = some f → w.disk = some f) (now : Nat) (ok : Bool) :
    SavedBy p w l pending (l.sync w.disk (pending.map p.event) now ok) := by
  obtain ⟨hdisk, hwritten⟩ := l.sync_disk w.disk (pending.map p.event) now ok hw
  exact ⟨l.sync_eq _ _ _ _, ⟨now, hdisk⟩, hwritten⟩

variable {pending} (hs : SavedBy p w l pending s)
include hs

theorem SavedBy.good (h : w.Good p) (hl : l.Sound p) (hrelay : l.relayUrl = w.ledger.relayUrl)
    (hagent : l.agentPubkey = w.ledger.agentPubkey) (v : World) : (v.save s).Good p := by
  obtain ⟨written, retryAt, hledger⟩ := hs.ledger
  obtain ⟨now, hdisk⟩ := hs.disk
  refine ⟨?_, fun f hf => ?_, hs.written⟩
  · rw [save, hledger]
    exact hl.with_written
  · simp only [save] at hf ⊢
    rw [hledger]
    rw [hdisk] at hf
    split at hf
    · cases hf
      exact ⟨WakeLedger.snapshot_sound hl pending now, rfl, rfl, rfl⟩
    · obtain ⟨hfile, hversion, hr, ha⟩ := h.file f hf
      exact ⟨hfile, hversion, hr.trans hrelay.symm, ha.trans hagent.symm⟩

theorem SavedBy.saves {v : World} (hv : v.settled = w.settled) : Saves p w (v.save s) pending := by
  obtain ⟨written, retryAt, hledger⟩ := hs.ledger
  obtain ⟨now, hdisk⟩ := hs.disk
  by_cases hsaved : s.outcome.isSaved = true
  · refine .inr ⟨now, ?_, by simp only [save, if_pos hsaved, hv]⟩
    rw [save, hdisk, if_pos hsaved, hledger]
    rfl
  · refine .inl ⟨?_, by simp only [save, if_neg hsaved, hv]⟩
    rw [save, hdisk, if_neg hsaved]

theorem SavedBy.moved {e : EventId} {new added : Prop} {t : WakeLedger.Track}
    (hm : WakeLedger.Moved p w.ledger l e new added t) :
    WakeLedger.Moved p w.ledger s.ledger e new added t := by
  obtain ⟨written, retryAt, hledger⟩ := hs.ledger
  rw [hledger]
  exact ⟨hm.floor, hm.since, hm.known, hm.kept, hm.committed, hm.lost, hm.track, hm.abandoned⟩

end Save

theorem start_spec (relayUrl agentPubkey : String) (now watermark : Nat) :
    (start relayUrl agentPubkey now watermark).Good p ∧
      (∀ e, (start relayUrl agentPubkey now watermark).ledger.track e = ⟨none, none, none⟩) ∧
      (start relayUrl agentPubkey now watermark).ledger.handledIds = ∅ ∧
      (start relayUrl agentPubkey now watermark).ledger.committed = ∅ ∧
      (start relayUrl agentPubkey now watermark).ledger.abandoned = [] := by
  obtain ⟨hopened, -⟩ := WakeLedger.openFile_spec now watermark
    (show WakeLedger.FileSound p (WakeLedger.loaded none relayUrl agentPubkey) from
      WakeLedger.fileSound_blankFile relayUrl agentPubkey)
  refine ⟨⟨hopened.sound, fun f hf => (Option.some_ne_none f hf.symm).elim, fun f hf => ?_⟩,
    fun e => hopened.trackOther e fun x hx => absurd hx List.not_mem_nil,
    Finset.eq_empty_of_forall_notMem fun e he => ?_, hopened.committed,
    List.eq_nil_iff_forall_not_mem.2 fun x hx => ?_⟩
  · rw [show (start relayUrl agentPubkey now watermark).ledger.written = none from hopened.written]
      at hf
    cases hf
  · rcases hopened.known e he with hin | hin | ⟨x, hx, -⟩
    · exact List.not_mem_nil hin
    · exact List.not_mem_nil hin
    · exact List.not_mem_nil hx
  · rcases hopened.abandoned x hx with hin | ⟨y, hy, -⟩
    · exact List.not_mem_nil hin
    · exact List.not_mem_nil hy

section Step

variable (h : w.Good p)
include h

theorem Good.loaded : WakeLedger.FileSound p
    (WakeLedger.loaded w.disk w.ledger.relayUrl w.ledger.agentPubkey) := by
  rcases WakeLedger.loaded_cases w.disk w.ledger.relayUrl w.ledger.agentPubkey with heq | hdisk
  · rw [heq]
    exact WakeLedger.fileSound_blankFile _ _
  · exact (h.file _ hdisk).1

theorem Good.restart (now watermark : Nat) : (w.restart now watermark).Good p ∧
    WakeLedger.Opened p (WakeLedger.loaded w.disk w.ledger.relayUrl w.ledger.agentPubkey) now
      (w.restart now watermark).ledger := by
  obtain ⟨hopened, hrelay, hagent, -⟩ := WakeLedger.openFile_spec now watermark h.loaded
  refine ⟨⟨hopened.sound, fun f hf => ?_, fun f hf => ?_⟩, hopened⟩
  · obtain ⟨hsound, hversion, hr, ha⟩ := h.file f hf
    exact ⟨hsound, hversion, hr.trans hrelay.symm, ha.trans hagent.symm⟩
  · rw [show (w.restart now watermark).ledger.written = none from hopened.written] at hf
    cases hf

theorem Good.savedBy_commitAll (ids pending : List EventId) (now : Nat) (ok : Bool) :
    SavedBy p w (WakeLedger.commitAll p now (w.ledger, []) ids).1 pending
      ((WakeLedger.commitAll p now (w.ledger, []) ids).1.sync w.disk (pending.map p.event) now ok) := by
  refine savedBy_sync pending ?_ now ok
  obtain ⟨_, _, _, _, _, _, hall⟩ := WakeLedger.commitAll_eq (p := p) now (w.ledger, []) ids
  rw [hall]
  exact h.written

theorem Good.disk_commit {ids pending : List EventId} {now : Nat} {ok : Bool}
    (hsaved : (w.ledger.commit w.disk (ids.map p.event) (pending.map p.event) now ok).outcome.isSaved
      = false) :
    (w.ledger.commit w.disk (ids.map p.event) (pending.map p.event) now ok).disk = w.disk := by
  obtain ⟨_, hdisk⟩ := (h.savedBy_commitAll ids pending now ok).disk
  rw [WakeLedger.commit_outcome] at hsaved
  rw [WakeLedger.commit_disk]
  exact hdisk.trans (if_neg (Bool.eq_false_iff.1 hsaved))

theorem Good.commit {ids pending : List EventId} (now : Nat) (ok : Bool) :
    (w.step p (.commit ids pending now ok)).Good p := by
  have hsync := h.savedBy_commitAll ids pending now ok
  unfold step
  dsimp only
  split
  · next hsaved =>
    rw [WakeLedger.commit_of_saved _ _ _ _ hsaved]
    have hsound := (WakeLedger.commitAll_sound now (w.ledger, []) h.ledger ids).1
    obtain ⟨_, _, _, _, _, _, hall⟩ := WakeLedger.commitAll_eq (p := p) now (w.ledger, []) ids
    have hgood := hsync.good h hsound (by rw [hall]) (by rw [hall]) w
    exact ⟨hgood.ledger, hgood.file, hgood.written⟩
  · next hsaved =>
    have hsaved := Bool.eq_false_iff.2 hsaved
    obtain ⟨hsound, -, -, _, _, _, _, _, _, _, hledger⟩ :=
      WakeLedger.commit_unsaved h.ledger w.disk (pending.map p.event) now ok ids hsaved
    refine ⟨hsound, fun f hf => ?_, fun f hf => ?_⟩
    · rw [save, hledger]
      exact h.file f (h.disk_commit hsaved ▸ hf)
    · rw [save, hledger] at hf
      rw [save, WakeLedger.commit_disk]
      exact hsync.written f hf

theorem Good.written_forgotten (ids : List EventId) :
    ∀ f, (w.ledger.forgotten ids).written = some f → w.disk = some f := by
  obtain ⟨-, ⟨_, _, _, _, _, heq⟩, -⟩ := WakeLedger.forget_spec h.ledger ids
  rw [heq]
  exact h.written

theorem Good.step (call : WakeCall) : (w.step p call).Good p := by
  cases call with
  | restart now watermark => exact (h.restart now watermark).1
  | admitEvent id now =>
    have hsound := (WakeLedger.admit_spec now h.ledger id).1
    obtain ⟨_, _, _, _, _, _, heq⟩ := WakeLedger.admit_eq now w.ledger (p.event id)
    refine ⟨hsound, fun f hf => ?_, fun f hf => ?_⟩
    · simp only [World.step, heq]
      exact h.file f hf
    · simp only [World.step, heq] at hf
      exact h.written f hf
  | commit ids pending now ok => exact h.commit now ok
  | attachToTurn turnId ids =>
    simp only [World.step, WakeLedger.attachToTurn]
    split <;> exact ⟨⟨h.ledger.ids, h.ledger.times, h.ledger.nodup, h.ledger.inFlight,
      h.ledger.released, h.ledger.abandoned⟩, h.file, h.written⟩
  | finishTurn turnId answered pending now ok =>
    simp only [World.step, WakeLedger.finishTurn_eq]
    exact (savedBy_sync pending (l := w.ledger.finished turnId answered) h.written now ok).good h
      (h.ledger.finished turnId answered) rfl rfl _
  | takeStoppedEvent id =>
    exact ⟨⟨h.ledger.ids, h.ledger.times, h.ledger.nodup, h.ledger.inFlight,
      h.ledger.released, h.ledger.abandoned⟩, h.file, h.written⟩
  | settleAnswered id pending now ok =>
    exact (savedBy_sync pending (l := w.ledger.settledOne id) h.written now ok).good h
      (h.ledger.settledOne id) rfl rfl _
  | reopenForRetry floor =>
    obtain ⟨hsound, ⟨_, _, _, _, _, _, _, _, _, heq, -⟩, -⟩ := WakeLedger.reopen_spec h.ledger floor
    refine ⟨hsound, fun f hf => ?_, fun f hf => ?_⟩
    · simp only [World.step, heq]
      exact h.file f hf
    · simp only [World.step, heq] at hf
      exact h.written f hf
  | forgetEvents ids pending now ok =>
    obtain ⟨hsound, ⟨_, _, _, _, _, heq⟩, -⟩ := WakeLedger.forget_spec h.ledger ids
    exact (savedBy_writeSnapshot pending (h.written_forgotten ids) now ok).good h hsound
      (by rw [heq]) (by rw [heq]) _
  | sync pending now ok => exact (savedBy_sync pending h.written now ok).good h h.ledger rfl rfl _

theorem saves_step (call : WakeCall) : Saves p w (w.step p call) (waiting call) := by
  cases call with
  | restart | admitEvent | attachToTurn | takeStoppedEvent | reopenForRetry => exact .inl ⟨rfl, rfl⟩
  | commit ids pending now ok =>
    unfold step
    dsimp only
    split
    · next hsaved =>
      rw [WakeLedger.commit_of_saved _ _ _ _ hsaved]
      exact (h.savedBy_commitAll ids pending now ok).saves (v := w) rfl
    · next hsaved =>
      refine .inl ⟨h.disk_commit (Bool.eq_false_iff.2 hsaved), ?_⟩
      simp only [save, if_neg hsaved]
  | finishTurn turnId answered pending now ok =>
    simp only [World.step, WakeLedger.finishTurn_eq]
    exact (savedBy_sync pending (l := w.ledger.finished turnId answered) h.written now ok).saves rfl
  | settleAnswered id pending now ok =>
    exact (savedBy_sync pending (l := w.ledger.settledOne id) h.written now ok).saves rfl
  | forgetEvents ids pending now ok =>
    exact (savedBy_writeSnapshot pending (h.written_forgotten ids) now ok).saves rfl
  | sync pending now ok => exact (savedBy_sync pending h.written now ok).saves rfl

end Step

def ending (w : World) : WakeCall → List EventId
  | .finishTurn turnId answered _ _ _ => w.ledger.settles turnId answered
  | .settleAnswered id _ _ _ => [id]
  | _ => []

def forgetting : WakeCall → List EventId
  | .forgetEvents ids _ _ _ => ids
  | _ => []

def returning (w : World) : WakeCall → List EventId
  | .reopenForRetry floor => (w.ledger.reopened floor).map (·.1)
  | .forgetEvents ids _ _ _ => ids
  | _ => []

inductive Effect (p : Published) (e : EventId) (w : World) (call : WakeCall) (w' : World) : Prop
  | restarted (now watermark : Nat) (hcall : call = .restart now watermark)
  | kept
      (moved : WakeLedger.Moved p w.ledger w'.ledger e False False (w.ledger.track e))
      (received : e ∈ w'.received ↔ e ∈ w.received)
      (begun : e ∈ w'.begun ↔ e ∈ w.begun) (runs : w'.runs e = w.runs e)
  | admitted (now : Nat) (hcall : call = .admitEvent e now)
      (moved : WakeLedger.Moved p w.ledger w'.ledger e True False
        { w.ledger.track e with released := none })
      (known : e ∈ w'.ledger.handledIds)
      (received : e ∈ w'.received ↔ e ∈ w.received ∨ e ∉ w.ledger.handledIds)
      (begun : e ∈ w'.begun ↔ e ∈ w.begun) (runs : w'.runs e = w.runs e)
  | began (listed : e ∈ starting call) (t : WakeLedger.Track)
      (moved : WakeLedger.Moved p w.ledger w'.ledger e True True t)
      (track : (e ∈ w.ledger.committed ∧ t = w.ledger.track e) ∨
        ((e ∉ w.ledger.committed ∨ w'.ledger.Sealed p e) ∧
          ∃ now, t = (w.ledger.track e).start (p.event e) now))
      (received : e ∈ w'.received ↔ e ∈ w.received) (begun : e ∈ w'.begun)
      (runs : w'.runs e = if e ∈ w.begun then w.runs e else w.runs e + 1)
      (saved : ∃ now, w'.disk = some (w'.ledger.snapshot ((waiting call).map p.event) now))
  | tried (listed : e ∈ starting call) (t : WakeLedger.Track)
      (moved : WakeLedger.Moved p w.ledger w'.ledger e True False t)
      (released : t.released = (w.ledger.track e).released)
      (track : (starting call).Nodup → t = w.ledger.track e)
      (received : e ∈ w'.received ↔ e ∈ w.received)
      (begun : e ∈ w'.begun ↔ e ∈ w.begun) (runs : w'.runs e = w.runs e)
  | ended (hcall : e ∈ ending w call) (t : WakeLedger.Track)
      (moved : WakeLedger.Moved p w.ledger w'.ledger e False False t)
      (track : t.inFlight = none ∧ t.released = (w.ledger.track e).released)
      (received : e ∈ w'.received ↔ e ∈ w.received)
      (begun : e ∈ w'.begun ↔ e ∈ w.begun)
  | returned (hcall : e ∈ returning w call)
      (floor : w.ledger.evictedFloor ≤ w'.ledger.evictedFloor)
      (unknown : e ∉ w'.ledger.handledIds) (received : e ∉ w'.received)
      (abandoned : p.event e ∈ w'.ledger.abandoned →
        p.event e ∈ w.ledger.abandoned ∧ e ∈ forgetting call)

section Effect

theorem Effect.floor {e : EventId} {call : WakeCall} (h : Effect p e w call w')
    (hrun : ∀ now watermark, call ≠ .restart now watermark) :
    w.ledger.evictedFloor ≤ w'.ledger.evictedFloor := by
  cases h with
  | restarted now watermark hcall => exact absurd hcall (hrun now watermark)
  | kept moved => exact moved.floor
  | admitted _ _ moved => exact moved.floor
  | began _ _ moved => exact moved.floor
  | tried _ _ moved => exact moved.floor
  | ended _ _ moved => exact moved.floor
  | returned _ floor => exact floor

theorem Effect.abandoned_of {e : EventId} {call : WakeCall} (h : Effect p e w call w')
    (hrun : ∀ now watermark, call ≠ .restart now watermark)
    (hab : p.event e ∈ w'.ledger.abandoned) : p.event e ∈ w.ledger.abandoned := by
  cases h with
  | restarted now watermark hcall => exact absurd hcall (hrun now watermark)
  | kept moved => exact moved.abandoned.1 hab
  | admitted _ _ moved => exact moved.abandoned.1 hab
  | began _ _ moved => exact moved.abandoned.1 hab
  | tried _ _ moved => exact moved.abandoned.1 hab
  | ended _ _ moved => exact moved.abandoned.1 hab
  | returned _ _ _ _ abandoned => exact (abandoned hab).1

variable (h : w.Good p) (e : EventId)
include h

omit h in
theorem step_commit_saved {ids pending : List EventId} {now : Nat} {ok : Bool}
    (hsaved : (w.ledger.commit w.disk (ids.map p.event) (pending.map p.event) now ok).outcome.isSaved
      = true) :
    w.step p (.commit ids pending now ok) =
      { w.save ((WakeLedger.commitAll p now (w.ledger, []) ids).1.sync w.disk
          (pending.map p.event) now ok) with
        begun := w.begun ∪ ids.toFinset
        runs := fun e => if e ∈ ids ∧ e ∉ w.begun then w.runs e + 1 else w.runs e } := by
  rw [← WakeLedger.commit_of_saved _ _ _ _ hsaved]
  exact if_pos hsaved

omit h in
theorem step_commit_unsaved {ids pending : List EventId} {now : Nat} {ok : Bool}
    (hsaved : (w.ledger.commit w.disk (ids.map p.event) (pending.map p.event) now ok).outcome.isSaved
      = false) :
    w.step p (.commit ids pending now ok) =
      w.save (w.ledger.commit w.disk (ids.map p.event) (pending.map p.event) now ok) :=
  if_neg (Bool.eq_false_iff.1 hsaved)

theorem effect_commit (ids pending : List EventId) (now : Nat) (ok : Bool) :
    Effect p e w (.commit ids pending now ok) (w.step p (.commit ids pending now ok)) := by
  by_cases hsaved : (w.ledger.commit w.disk (ids.map p.event) (pending.map p.event) now
      ok).outcome.isSaved = true
  · obtain ⟨_, hfades⟩ := WakeLedger.commitAll_sound now (w.ledger, []) h.ledger ids
    obtain ⟨_, _, _, _, _, _, hall⟩ := WakeLedger.commitAll_eq (p := p) now (w.ledger, []) ids
    have hsync := h.savedBy_commitAll ids pending now ok
    have hmoved := hsync.moved (hfades.moved (by rw [hall]) (by rw [hall]) e)
    have hsealed : (WakeLedger.commitAll p now (w.ledger, []) ids).1.Sealed p e →
        WakeLedger.Sealed p ((WakeLedger.commitAll p now (w.ledger, []) ids).1.sync w.disk
          (pending.map p.event) now ok).ledger e := by
      obtain ⟨_, _, heq⟩ := hsync.ledger
      rw [heq]
      exact id
    rw [step_commit_saved hsaved]
    by_cases he : e ∈ ids
    · simp only [he] at hmoved
      refine .began he _ hmoved ?_ Iff.rfl
        (Finset.mem_union_right _ (List.mem_toFinset.2 he)) ?_ ?_
      · exact (WakeLedger.commitAll_track now (w.ledger, []) h.ledger he).imp_right
          fun ⟨hc, htrack⟩ => ⟨hc.imp_right hsealed, now, htrack⟩
      · by_cases hb : e ∈ w.begun <;> simp [hb, he]
      · obtain ⟨now', hdisk⟩ := hsync.disk
        obtain ⟨_, _, hledger⟩ := hsync.ledger
        rw [WakeLedger.commit_outcome] at hsaved
        refine ⟨now', (hdisk.trans (if_pos hsaved)).trans ?_⟩
        simp only [save, hledger]
        rfl
    · have hother := (WakeLedger.commitAll_other now (w.ledger, []) h.ledger he).1
      simp only [he, hother] at hmoved
      refine .kept hmoved Iff.rfl ?_ ?_
      · simp [he]
      · simp [he]
  · have hsaved := Bool.eq_false_iff.2 hsaved
    obtain ⟨-, hfades, htrack, _, _, _, _, _, _, _, hledger⟩ :=
      WakeLedger.commit_unsaved h.ledger w.disk (pending.map p.event) now ok ids hsaved
    have hmoved := hfades.moved (by rw [hledger]) (by rw [hledger]) e
    rw [show (e ∈ ([] : List EventId)) = False by simp] at hmoved
    rw [step_commit_unsaved hsaved]
    by_cases he : e ∈ ids
    · simp only [he] at hmoved
      refine .tried he _ hmoved ?_ (fun hnodup => ?_) Iff.rfl Iff.rfl rfl
      · rw [hledger]
        rfl
      · exact WakeLedger.track_commit_unsaved h.ledger _ _ _ _ hnodup hsaved e
    · simp only [he, htrack e he] at hmoved
      exact .kept hmoved Iff.rfl Iff.rfl rfl

theorem effect_admit (id : EventId) (now : Nat) :
    Effect p e w (.admitEvent id now) (w.step p (.admitEvent id now)) := by
  obtain ⟨-, hfades, hknown, htrack⟩ := WakeLedger.admit_spec now h.ledger id
  obtain ⟨_, _, _, _, _, _, heq⟩ := WakeLedger.admit_eq now w.ledger (p.event id)
  have hmoved := hfades.moved (by rw [heq]) (by rw [heq]) e
  have hduplicate := WakeLedger.admit_duplicate_iff now w.ledger (p.event id)
  rw [htrack, show (e ∈ ([] : List EventId)) = False by simp] at hmoved
  by_cases he : e = id
  · subst he
    simp only [List.mem_singleton, if_true] at hmoved
    refine .admitted now rfl hmoved hknown ?_ Iff.rfl rfl
    simp only [step, hduplicate]
    split
    · next hin => exact (or_iff_left fun hnot => hnot hin).symm
    · next hin => exact iff_of_true (Finset.mem_insert_self _ _) (.inr hin)
  · simp only [List.mem_singleton, he, if_false] at hmoved
    refine .kept hmoved ?_ Iff.rfl rfl
    simp only [step]
    split
    · exact Iff.rfl
    · rw [Finset.mem_insert]
      exact or_iff_right he

theorem effect_reopen (floor : Nat) :
    Effect p e w (.reopenForRetry floor) (w.step p (.reopenForRetry floor)) := by
  obtain ⟨-, ⟨_, _, _, _, _, _, _, _, _, heq, hsince⟩, hall⟩ :=
    WakeLedger.reopen_spec h.ledger floor
  obtain ⟨hids, hother, hself⟩ := hall e
  have hfloor : (w.ledger.reopenForRetry floor).2.evictedFloor = w.ledger.evictedFloor := by
    rw [heq]
  by_cases he : e ∈ (w.ledger.reopened floor).map (·.1)
  · exact .returned he hfloor.ge (fun hk => (hids.1 hk).2 he)
      (fun hr => (Finset.mem_sdiff.1 hr).2 (List.mem_toFinset.2 he))
      fun hab => absurd hab (hself he).2.1
  · obtain ⟨htrack, habandoned⟩ := hother he
    have hmoved : WakeLedger.Moved p w.ledger (w.ledger.reopenForRetry floor).2 e False False _ :=
      .of_same hfloor ?_ (hids.trans (and_iff_left he)) (by rw [heq]) habandoned
    · rw [htrack] at hmoved
      refine .kept hmoved ?_ Iff.rfl rfl
      simp only [step, Finset.mem_sdiff, List.mem_toFinset]
      exact and_iff_left he
    · rw [hfloor, heq]
      exact hsince

theorem effect_forget (ids pending : List EventId) (now : Nat) (ok : Bool) :
    Effect p e w (.forgetEvents ids pending now ok) (w.step p (.forgetEvents ids pending now ok)) := by
  obtain ⟨-, ⟨_, _, _, _, _, heq⟩, hall⟩ := WakeLedger.forget_spec h.ledger ids
  obtain ⟨hids, hcommitted, htrack⟩ := hall e
  have hsave := savedBy_writeSnapshot (p := p) pending (h.written_forgotten ids) now ok
  by_cases he : e ∈ ids
  · obtain ⟨_, _, hledger⟩ := hsave.ledger
    have hstep : (w.step p (.forgetEvents ids pending now ok)).ledger =
        ((w.ledger.forgotten ids).writeSnapshot w.disk (pending.map p.event) now ok).ledger := rfl
    refine .returned he ?_ ?_ ?_ fun hab => ⟨?_, he⟩
    · rw [hstep, hledger, heq]
    · rw [hstep, hledger]
      exact fun hk => (hids.1 hk).2 he
    · exact fun hr => (Finset.mem_sdiff.1 hr).2 (List.mem_toFinset.2 he)
    · rwa [hstep, hledger, heq] at hab
  · rw [if_neg fun hin => he hin.2] at htrack
    have hmoved := hsave.moved (.of_same (e := e) (by rw [heq]) (.inl (by rw [heq]))
      (hids.trans (and_iff_left he)) (hcommitted.trans (and_iff_left fun hin => he hin.2))
      (by rw [heq]))
    rw [htrack] at hmoved
    refine .kept hmoved ?_ Iff.rfl rfl
    simp only [step, save, Finset.mem_sdiff, List.mem_toFinset]
    exact and_iff_left he

theorem effect_step (call : WakeCall) : Effect p e w call (w.step p call) := by
  cases call with
  | restart now watermark => exact .restarted now watermark rfl
  | admitEvent id now => exact effect_admit h e id now
  | commit ids pending now ok => exact effect_commit h e ids pending now ok
  | attachToTurn turnId ids =>
    refine .kept ?_ Iff.rfl Iff.rfl rfl
    simp only [step, WakeLedger.attachToTurn]
    split <;> exact .of_same rfl (.inl rfl) Iff.rfl Iff.rfl Iff.rfl
  | finishTurn turnId answered pending now ok =>
    have hmoved := (savedBy_sync (p := p) pending
      (l := w.ledger.finished turnId answered) h.written now ok).moved
      (.of_same (e := e) rfl (.inl rfl) Iff.rfl Iff.rfl Iff.rfl)
    rw [WakeLedger.track_finished, ← WakeLedger.finishTurn_eq] at hmoved
    by_cases he : e ∈ w.ledger.settles turnId answered
    · rw [if_pos he] at hmoved
      exact .ended he _ hmoved ⟨rfl, rfl⟩ Iff.rfl Iff.rfl
    · rw [if_neg he] at hmoved
      exact .kept hmoved Iff.rfl Iff.rfl rfl
  | takeStoppedEvent id =>
    exact .kept (.of_same rfl (.inl rfl) Iff.rfl Iff.rfl Iff.rfl) Iff.rfl Iff.rfl rfl
  | settleAnswered id pending now ok =>
    have hmoved := (savedBy_sync (p := p) pending
      (l := w.ledger.settledOne id) h.written now ok).moved
      (.of_same (e := e) rfl (.inl rfl) Iff.rfl Iff.rfl Iff.rfl)
    rw [WakeLedger.track_settledOne] at hmoved
    by_cases he : e = id
    · rw [if_pos he] at hmoved
      exact .ended (List.mem_singleton.2 he) _ hmoved ⟨rfl, rfl⟩ Iff.rfl Iff.rfl
    · rw [if_neg he] at hmoved
      exact .kept hmoved Iff.rfl Iff.rfl rfl
  | reopenForRetry floor => exact effect_reopen h e floor
  | forgetEvents ids pending now ok => exact effect_forget h e ids pending now ok
  | sync pending now ok =>
    exact .kept ((savedBy_sync pending h.written now ok).moved
      (.of_same rfl (.inl rfl) Iff.rfl Iff.rfl Iff.rfl)) Iff.rfl Iff.rfl rfl

end Effect

theorem Effect.received_of {e : EventId} {call : WakeCall} (h : Effect p e w call w')
    (hrun : ∀ now watermark, call ≠ .restart now watermark) (hreturn : e ∉ returning w call)
    (hr : e ∈ w.received) : e ∈ w'.received := by
  cases h with
  | restarted now watermark hcall => exact absurd hcall (hrun now watermark)
  | kept _ received => exact received.2 hr
  | admitted _ _ _ _ received => exact received.2 (.inl hr)
  | began _ _ _ _ received => exact received.2 hr
  | tried _ _ _ _ _ received => exact received.2 hr
  | ended _ _ _ _ received => exact received.2 hr
  | returned hcall => exact absurd hcall hreturn

def Replayable (p : Published) (l : WakeLedger) (e : EventId) : Prop :=
  ∀ since ∈ l.catchUpSince, since ≤ p.createdAt e + SINCE_SKEW_SECS

instance (p : Published) (l : WakeLedger) (e : EventId) : Decidable (Replayable p l e) :=
  inferInstanceAs (Decidable (∀ since ∈ l.catchUpSince, _))

def Barred (p : Published) (l : WakeLedger) (e : EventId) : Prop :=
  e ∈ l.handledIds ∨ (l.Sealed p e ∧ ¬Replayable p l e)

section Barred

variable {l l' : WakeLedger} {e : EventId} {new added : Prop} {t : WakeLedger.Track}
  (hrange : p.createdAt e + SINCE_SKEW_SECS < U64_MAX)
include hrange

theorem not_replayable_of_since {since : Nat} (hs : l.Sealed p e)
    (hsince : l.catchUpSince = some since) (hle : l.evictedFloor ≤ since) : ¬Replayable p l e := by
  intro hreplay
  have hle' := hreplay since hsince
  simp only [WakeLedger.Sealed, saturatingAdd] at hs
  omega

theorem gone_of_moved (hm : WakeLedger.Moved p l l' e new added t) (hs : l.Sealed p e)
    (hr : ¬Replayable p l e) : l'.Sealed p e ∧ ¬Replayable p l' e := by
  have hs' := hs.mono hm.floor
  refine ⟨hs', ?_⟩
  rcases hm.since with hsince | ⟨since, hsince, hle⟩
  · rwa [Replayable, hsince]
  · exact not_replayable_of_since hrange hs' hsince hle

theorem Barred.moved (hb : Barred p l e) (hm : WakeLedger.Moved p l l' e new added t)
    (hkeep : e ∈ l.handledIds → e ∈ l'.handledIds ∨ ¬Replayable p l' e) : Barred p l' e := by
  rcases hb with hk | ⟨hs, hr⟩
  · rcases hm.kept (.inl hk) with hk' | hs'
    · exact .inl hk'
    · exact (hkeep hk).imp_right fun hr => ⟨hs', hr⟩
  · exact .inr (gone_of_moved hrange hm hs hr)

end Barred

theorem Good.restart_read (h : w.Good p) {f : LedgerFile} (hdisk : w.disk = some f)
    (hfits : f.jsonLen ≤ MAX_FILE_BYTES) (now watermark : Nat) :
    WakeLedger.Opened p f now (w.restart now watermark).ledger ∧
      ∃ since, (w.restart now watermark).ledger.catchUpSince = some since ∧
        (w.restart now watermark).ledger.evictedFloor ≤ since := by
  obtain ⟨hfile, hversion, hrelay, hagent⟩ := h.file f hdisk
  have hread : WakeLedger.readFile w.disk w.ledger.relayUrl w.ledger.agentPubkey = some f := by
    rw [hdisk]
    refine Option.filter_eq_some_iff.2 ⟨rfl, ?_⟩
    simp only [Bool.and_eq_true, decide_eq_true_eq]
    exact ⟨⟨⟨hfits, hversion⟩, hrelay⟩, hagent⟩
  have hloaded : WakeLedger.loaded w.disk w.ledger.relayUrl w.ledger.agentPubkey = f := by
    rw [WakeLedger.loaded, hread]
    rfl
  obtain ⟨hopened, -, -, hsince⟩ := WakeLedger.openFile_spec now watermark h.loaded
  rw [hloaded] at hopened
  rw [hread, Option.map_some] at hsince
  exact ⟨hopened, _, hsince, le_max_right _ _⟩

theorem Good.barred_restart (h : w.Good p) {f : LedgerFile} (hdisk : w.disk = some f)
    (hfits : f.jsonLen ≤ MAX_FILE_BYTES) (now watermark : Nat) {e : EventId}
    (hrange : p.createdAt e + SINCE_SKEW_SECS < U64_MAX) (he : (p.event e ∈ f.handled ∨ p.event e ∈ f.abandoned ∨
      ∃ x ∈ f.inFlight, x.id = e ∧ WakeLedger.recovery now x ≠ .deliver) ∨
      saturatingAdd (p.createdAt e) (SINCE_SKEW_SECS + 1) ≤ f.evictedFloor) :
    Barred p (w.restart now watermark).ledger e := by
  obtain ⟨hopened, since, hsince, hle⟩ := h.restart_read hdisk hfits now watermark
  have hsealed : (w.restart now watermark).ledger.Sealed p e →
      Barred p (w.restart now watermark).ledger e := fun hs =>
    .inr ⟨hs, not_replayable_of_since hrange hs hsince hle⟩
  rcases he with he | hbelow
  · exact (hopened.kept e he).elim .inl hsealed
  · exact hsealed (Nat.le_trans hbelow hopened.floor)

def admitting : WakeCall → List EventId
  | .admitEvent id _ => [id]
  | _ => []

def isRestart : WakeCall → Bool
  | .restart _ _ => true
  | _ => false

theorem ne_restart {call : WakeCall} (h : isRestart call = false) (now watermark : Nat) :
    call ≠ .restart now watermark := by
  rintro rfl
  cases h

theorem step_retained (h : w.Good p) {call : WakeCall} (hrun : isRestart call = false) {e : EventId}
    (hreturn : e ∉ returning w call) (hk : e ∈ w.ledger.handledIds) :
    e ∈ (w.step p call).ledger.handledIds ∨
      (e ∈ WakeLedger.pushedOut (w.ledger.handled.map (·.id)) (admitting call ++ starting call) ∧
        (w.step p call).ledger.catchUpSince = w.ledger.catchUpSince) := by
  have hlisted := (h.ledger.mem_ids e).1 hk
  have hsound := (h.step call).ledger
  cases call with
  | restart => cases hrun
  | admitEvent id now =>
    obtain ⟨_, _, _, _, _, _, heq⟩ := WakeLedger.admit_eq now w.ledger (p.event id)
    refine (WakeLedger.admit_kept now h.ledger id hlisted).imp (hsound.mem_ids e).2 fun hout =>
      ⟨hout, ?_⟩
    simp only [step, heq]
  | commit ids pending now ok =>
    have hkept := WakeLedger.mem_commitAll_or_pushedOut now (w.ledger, []) h.ledger ids hlisted
    rw [← ((WakeLedger.commitAll_sound now (w.ledger, []) h.ledger ids).1.mem_ids e)] at hkept
    obtain ⟨_, _, _, _, _, _, hall⟩ := WakeLedger.commitAll_eq (p := p) now (w.ledger, []) ids
    by_cases hsaved : (w.ledger.commit w.disk (ids.map p.event) (pending.map p.event) now
        ok).outcome.isSaved = true
    · obtain ⟨_, _, hledger⟩ := (h.savedBy_commitAll ids pending now ok).ledger
      rw [step_commit_saved hsaved]
      simp only [save, hledger]
      exact hkept.imp_right fun hout => ⟨hout, by rw [hall]⟩
    · have hsaved := Bool.eq_false_iff.2 hsaved
      obtain ⟨_, hledger⟩ := WakeLedger.commit_rolledBack w.disk (pending.map p.event) now ok hsaved
      obtain ⟨_, _, _, hundone⟩ := WakeLedger.uncommit_eq _ _
      rw [step_commit_unsaved hsaved, save, hledger, hundone]
      exact hkept.imp_right fun hout => ⟨hout, by rw [hall]⟩
  | attachToTurn turnId ids =>
    simp only [step, WakeLedger.attachToTurn]
    split <;> exact .inl hk
  | finishTurn turnId answered pending now ok =>
    obtain ⟨_, _, hledger⟩ := (savedBy_sync (p := p) pending
      (l := w.ledger.finished turnId answered) h.written now ok).ledger
    simp only [step, save, WakeLedger.finishTurn_eq, hledger]
    exact .inl hk
  | takeStoppedEvent id => exact .inl hk
  | settleAnswered id pending now ok =>
    obtain ⟨_, _, hledger⟩ := (savedBy_sync (p := p) pending
      (l := w.ledger.settledOne id) h.written now ok).ledger
    refine .inl ?_
    rw [show (w.step p (.settleAnswered id pending now ok)).ledger = _ from hledger]
    exact hk
  | reopenForRetry floor =>
    obtain ⟨-, -, hall⟩ := WakeLedger.reopen_spec h.ledger floor
    exact .inl ((hall e).1.2 ⟨hk, hreturn⟩)
  | forgetEvents ids pending now ok =>
    obtain ⟨-, -, hall⟩ := WakeLedger.forget_spec h.ledger ids
    obtain ⟨_, _, hledger⟩ :=
      (savedBy_writeSnapshot (p := p) pending (h.written_forgotten ids) now ok).ledger
    refine .inl ?_
    rw [show (w.step p (.forgetEvents ids pending now ok)).ledger = _ from hledger]
    exact (hall e).1.2 ⟨hk, hreturn⟩
  | sync pending now ok =>
    obtain ⟨_, _, hledger⟩ := (savedBy_sync (p := p) pending h.written now ok).ledger
    refine .inl ?_
    rw [show (w.step p (.sync pending now ok)).ledger = _ from hledger]
    exact hk

/-- What the law of one event asks of a call: the listener keeps to the events it has and lists none
twice in a batch, the relay keeps to the replay it was asked for; a restart finds a file it can read;
an id this run has not received is pushed out of the list only when its event can no longer be
replayed; and the call does not hand the event back. -/
structure Orderly (p : Published) (e : EventId) (w : World) (call : WakeCall) : Prop where
  disciplined : w.Disciplined call
  distinct : (starting call).Nodup
  relayed : e ∈ admitting call → Replayable p w.ledger e
  readable : isRestart call = true → ∀ f ∈ w.disk, f.jsonLen ≤ MAX_FILE_BYTES
  retained : e ∉ w.received →
    e ∈ WakeLedger.pushedOut (w.ledger.handled.map (·.id)) (admitting call ++ starting call) →
    ¬Replayable p w.ledger e
  kept : e ∉ returning w call

instance (p : Published) (e : EventId) (w : World) (call : WakeCall) :
    Decidable (Orderly p e w call) :=
  decidable_of_iff (w.Disciplined call ∧ (starting call).Nodup ∧
      (e ∈ admitting call → Replayable p w.ledger e) ∧
      (isRestart call = true → ∀ f ∈ w.disk, f.jsonLen ≤ MAX_FILE_BYTES) ∧
      (e ∉ w.received →
        e ∈ WakeLedger.pushedOut (w.ledger.handled.map (·.id)) (admitting call ++ starting call) →
        ¬Replayable p w.ledger e) ∧ e ∉ returning w call)
    ⟨fun ⟨h₁, h₂, h₃, h₄, h₅, h₆⟩ => ⟨h₁, h₂, h₃, h₄, h₅, h₆⟩,
      fun ⟨h₁, h₂, h₃, h₄, h₅, h₆⟩ => ⟨h₁, h₂, h₃, h₄, h₅, h₆⟩⟩

section Orderly

variable {call : WakeCall} {e : EventId} (ho : Orderly p e w call)
include ho

theorem Orderly.has_started (he : e ∈ starting call) : e ∈ w.received :=
  ho.disciplined e (List.mem_append_left _ he)

theorem Orderly.has_waiting (he : e ∈ waiting call) : e ∈ w.received :=
  ho.disciplined e (List.mem_append_right _ he)

theorem Orderly.retain (h : w.Good p) (hrun : isRestart call = false) (hr : e ∉ w.received)
    (hk : e ∈ w.ledger.handledIds) :
    e ∈ (w.step p call).ledger.handledIds ∨ ¬Replayable p (w.step p call).ledger e := by
  refine (step_retained h hrun ho.kept hk).imp_right fun ⟨hout, hsince⟩ => ?_
  rw [Replayable, hsince]
  exact ho.retained hr hout

end Orderly

def atHundred : Published := ⟨fun _ => 100⟩

def mention : EventId := ⟨1⟩

def firstOpen : World := start "wss://relay" "agent" 100 100

end World

end Colony.Acp
