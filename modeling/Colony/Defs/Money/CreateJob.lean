import Colony.Defs.Money.WorkerLaws

namespace Colony.Money

open Colony.Core Colony.Data

variable {lib : Libs} {call : Call} {h head moved : LinkHead} {effects : List LinkEffect}

def LinkHead.waits (h : LinkHead) : Prop :=
  h.state = .creatingLink ∧ h.route = .api ∧ ¬h.linkExists

instance (h : LinkHead) : Decidable h.waits := inferInstanceAs (Decidable (_ ∧ _))

def Card.waits (card : Card) : Prop := ∃ h ∈ card.head, h.waits

instance (card : Card) : Decidable card.waits :=
  inferInstanceAs (Decidable (∃ h ∈ card.head, h.waits))

theorem Begins.queues_create {grant : Option BrowserGrant} (hb : Begins h grant effects)
    (hroute : h.route = .api) :
    LinkEffect.cancelJobs ∉ effects ∧ LinkEffect.queueCreate ∈ effects := by
  cases hb with
  | api => exact ⟨by simp, List.mem_singleton_self _⟩
  | browser route => cases hroute.symm.trans route

theorem Moved.waits (hmoved : Moved lib call h moved effects) (hwaits : moved.waits) :
    LinkEffect.cancelJobs ∉ effects ∧ LinkEffect.queueCreate ∈ effects := by
  obtain ⟨hstate, hroute, hlink⟩ := hwaits
  cases hmoved with
  | @edited _ _ _ head _ op editable redrafted =>
    rcases head.reopened_state with hs | ⟨hs, hcreating, -⟩
    · cases hs.symm.trans hstate
    · exact absurd (hs.symm.trans hstate) hcreating
  | approved op owner waiting facts begins => exact begins.queues_create hroute
  | retried op failed valid unlinked begins => exact begins.queues_create hroute
  | resent op failed valid link => exact absurd link hlink
  | linked => exact absurd rfl hlink
  | pending reported => cases reported.symm.trans hstate
  | _ => cases hstate

namespace Ledger

variable {l : Ledger}

theorem renews_waits (lib : Libs) (l : Ledger) (write : Write) : l.Renews lib Card.waits .create write := by
  have hchanged := l.step_changed lib write
  unfold Renews
  generalize l.step lib write = l' at hchanged
  rintro ⟨h', hh', hwaits⟩
  cases hchanged with
  | drafted blank drafted =>
    cases hh'
    rcases drafted.state with hs | hs <;> cases hs.symm.trans hwaits.1
  | moved current moves =>
    obtain ⟨moved, now, sourceEventId, hmoved, rfl⟩ := moves
    cases hh'
    exact .inr (JobTable.queued_lt_applyEffects ⟨_, (hmoved.waits hwaits).2, rfl⟩)
  | granted current browser =>
    cases hh'
    cases browser.symm.trans hwaits.2.1
  | _ => exact .inl ⟨h', hh', hwaits⟩

def Creating (l : Ledger) : Prop := l.card.waits → l.jobs.isOpen .create

theorem Creating.step (hl : l.Creating) {write : Write}
    (hkeep : write = .complete .create → ¬l.card.waits) : (l.step lib write).Creating := by
  have hchanged := l.step_changed lib write
  generalize l.step lib write = l' at hchanged
  rintro ⟨h', hh', hwaits⟩
  cases hchanged with
  | same => exact hl ⟨h', hh', hwaits⟩
  | drafted blank drafted =>
    cases hh'
    rcases drafted.state with hs | hs <;> cases hs.symm.trans hwaits.1
  | moved current moves =>
    obtain ⟨moved, now, sourceEventId, hmoved, rfl⟩ := moves
    cases hh'
    have hopens := hmoved.waits hwaits
    exact JobTable.isOpen_applyEffects hopens.1 (.inr ⟨_, hopens.2, rfl⟩)
  | granted current browser =>
    cases hh'
    cases browser.symm.trans hwaits.2.1
  | claimed | saved | later =>
    exact (JobTable.isOpen_modify (by exact fun _ => rfl) _).2 (hl ⟨h', hh', hwaits⟩)
  | completed kind =>
    refine (JobTable.isOpen_complete ?_).2 (hl ⟨h', hh', hwaits⟩)
    rintro rfl
    exact hkeep rfl ⟨h', hh', hwaits⟩

theorem not_waits_of_taken {op : SystemOp} {now effectsAt : Int} {sourceEventId : String}
    {change : LinkChange}
    (hop : (∃ code reason retryable, op = .fail code reason retryable) ∨
      ∃ created : Created, op = created.op)
    (htaken : (Call.system op now sourceEventId).apply lib l.card.head = .ok change) :
    ¬(l.step lib (.commit (.system op now sourceEventId) effectsAt)).card.waits := by
  dsimp only [step]
  cases hhead : l.card.head with
  | none =>
    rw [hhead] at htaken
    cases htaken
  | some h =>
    rw [hhead] at htaken
    rw [htaken]
    revert htaken
    have hstays (hno : ¬h.waits) : ¬l.card.waits := by
      rintro ⟨h', hh', hwaits⟩
      cases hhead.symm.trans hh'
      exact hno hwaits
    rcases hop with ⟨code, reason, retryable, rfl⟩ | ⟨created, rfl⟩
    · simp only [Call.apply, applySystem, stored]
      split_ifs with hstate
      · rintro ⟨⟩
        exact hstays fun hwaits => hstate hwaits.1
      · rintro ⟨⟩ ⟨_, ⟨⟩, hwaits⟩
        cases hwaits.1
    · simp only [Call.apply, applySystem, Created.op, stored, linkChecked]
      split_ifs with hstate hvalid hamount hcurrency
      · rintro ⟨⟩
        exact hstays fun hwaits => hstate.elim (· hwaits.1) hwaits.2.2
      · rintro ⟨⟩ ⟨_, ⟨⟩, hwaits⟩
        cases hwaits.1
      · rintro ⟨⟩ ⟨_, ⟨⟩, hwaits⟩
        cases hwaits.1
      · rintro ⟨⟩ ⟨_, ⟨⟩, hwaits⟩
        exact hwaits.2.2 rfl
      · exact False.elim

end Ledger

def Phase.closes : Phase → Bool
  | .finish .complete | .forget => true
  | _ => false

namespace Worker

variable {worker : Worker} {current : Option LinkHead} {answer : Answer} {turn : Turn}

theorem not_closes_fails (worker : Worker) : worker.fails.closes = false := by
  unfold fails
  split <;> rfl

theorem not_closes_failOrRetry (worker : Worker) (failure : RunFailure) :
    (worker.failOrRetry failure).closes = false := by
  unfold failOrRetry
  split <;> rfl

theorem not_waits_of_afterRead (hkind : worker.kind = .create)
    (hcloses : (worker.afterRead lib current).closes = true) : ∀ h ∈ current, ¬h.waits := by
  rintro h hh ⟨hstate, hroute, hlink⟩
  cases hh
  simp only [afterRead, hkind, hstate, hroute, hlink, not_true_eq_false, or_self, if_false,
    ne_eq] at hcloses
  cases hresult : worker.result <;> rw [hresult] at hcloses <;> cases hcloses

theorem op_of_fits {phase : Phase} {op : SystemOp} {ending : Ending}
    (hfits : fits .create phase = true) (happlies : phase.applies = some (op, ending)) :
    (∃ code reason retryable, op = .fail code reason retryable) ∨
      ∃ created : Created, op = created.op := by
  cases phase with
  | link created =>
    cases happlies
    exact .inr ⟨created, rfl⟩
  | apply op ending =>
    cases happlies
    cases ending <;> cases op <;> first | exact .inl ⟨_, _, _, rfl⟩ | cases hfits
  | _ => cases happlies

theorem taken_fail (lib : Libs) (h : LinkHead) {code reason sourceEventId : String} {retryable : Bool} {now : Int} :
    ∃ change, (Call.system (.fail code reason retryable) now sourceEventId).apply lib (some h) =
      .ok change := by
  simp only [Call.apply, applySystem, stored]
  split_ifs
  · exact ⟨_, rfl⟩
  · exact ⟨_, rfl⟩

/-- The turns that may close a create job that the card still needs: the community is not
found, the card is not failed before the job is given up, and the job was queued again. -/
def fences (worker : Worker) (queued : Nat) (answer : Answer) : Bool :=
  match worker.kind, worker.phase, answer with
  | .create, .start, .tenant found => found
  | .create, .giveUp, .write ack _ => ack ≠ .lost
  | .create, .finish .complete, .write _ _ | .create, .forget, .write _ _ => worker.queued == queued
  | _, _, _ => true

theorem queued_of_fences {queued : Nat} {ack : Ack} {now : Int} (hkind : worker.kind = .create)
    (hcloses : worker.phase.closes = true)
    (hfence : worker.fences queued (.write ack now) = true) : worker.queued = queued := by
  unfold fences at hfence
  rw [hkind] at hfence
  cases hphase : worker.phase with
  | finish ending =>
    cases ending with
    | complete => simpa [hphase] using hfence
    | later =>
      rw [hphase] at hcloses
      cases hcloses
  | forget => simpa [hphase] using hfence
  | _ =>
    rw [hphase] at hcloses
    cases hcloses

theorem Turned.not_waits {l : Ledger} (hturned : Turned lib l.card.head worker answer turn)
    (hfits : Worker.fits worker.kind worker.phase = true)
    (hfence : worker.fences (l.jobs.queued .create) answer = true) (hkind : worker.kind = .create) :
    ∀ phase ∈ turn.phase, phase.closes = true →
      ¬(turn.write.elim l (l.step lib)).card.waits := by
  rintro phase hphase hcloses
  cases hturned with
  | begun =>
    cases hphase
    rw [afterTenant, hkind] at hcloses
    cases hcloses
  | orphaned phase =>
    simp [fences, hkind, phase] at hfence
  | read =>
    cases hphase
    rintro ⟨h, hh, hwaits⟩
    exact not_waits_of_afterRead hkind hcloses h hh hwaits
  | connected => cases hphase; cases hcloses
  | disconnected => cases hphase; cases (not_closes_failOrRetry _ _).symm.trans hcloses
  | provided phase answer =>
    cases hphase
    unfold afterProvider at hcloses
    split at hcloses
    · cases (not_closes_failOrRetry _ _).symm.trans hcloses
    · split at hcloses
      · cases hcloses
      · cases (not_closes_failOrRetry _ _).symm.trans hcloses
  | sent phase answers =>
    cases hkind.symm.trans ((kind_of_fits hfits).2.1 _ phase)
  | paid phase result =>
    cases hkind.symm.trans ((kind_of_fits hfits).2.2 _ phase)
  | failed => cases hphase; cases (not_closes_fails _).symm.trans hcloses
  | saved phase ack now goes =>
    cases hphase
    rcases goes with rfl | rfl
    · cases hcloses
    · cases (not_closes_fails _).symm.trans hcloses
  | applied ack phase taken goes =>
    exact Ledger.not_waits_of_taken (op_of_fits (hkind ▸ hfits) phase) taken
  | finished phase ack now kept goes =>
    rcases goes with rfl | rfl <;> cases hphase
    cases (not_closes_fails _).symm.trans hcloses
  | gaveUp phase ack now =>
    cases hhead : l.card.head with
    | none =>
      rintro ⟨h, hh, -⟩
      simp [Ledger.step, systemCall, hhead, Call.apply] at hh
    | some h =>
      obtain ⟨change, htaken⟩ := taken_fail lib h
      exact Ledger.not_waits_of_taken (.inl ⟨_, _, _, rfl⟩) (hhead ▸ htaken)
  | gaveUpLost phase =>
    simp [fences, hkind, phase] at hfence
  | forgot => cases hphase
  | rescheduled => cases hphase
  | ended => cases hphase

theorem Turned.closes (hturned : Turned lib current worker answer turn) {kind : JobKind}
    (hwrite : turn.write = some (.complete kind)) :
    worker.kind = kind ∧ worker.phase.closes = true ∧ ∃ ack now, answer = .write ack now := by
  cases hturned with
  | @finished ending phase ack now _ kept goes =>
    cases ending with
    | complete =>
      cases hwrite
      exact ⟨rfl, phase ▸ rfl, ack, now, rfl⟩
    | later => cases hwrite
  | forgot phase ack now =>
    cases hwrite
    exact ⟨rfl, phase ▸ rfl, ack, now, rfl⟩
  | _ => cases hwrite

end Worker

namespace World

variable {w : World}

def fenced (w : World) : Act → Bool
  | .move n answer _ => (w.workers.lookup n).all fun worker =>
      worker.fences (w.ledger.jobs.queued .create) answer
  | _ => true

theorem Creating.step (hfits : w.Fits) (hsettled : w.Settled Card.waits .create Phase.closes)
    (hcreating : w.ledger.Creating) {act : Act} (hfenced : w.fenced act = true) :
    (w.step lib act).Settled Card.waits .create Phase.closes ∧ (w.step lib act).ledger.Creating := by
  have hstepped := w.step_stepped lib act
  generalize w.step lib act = w' at hstepped
  have hfence {n : Nat} {worker : Worker} {answer : Answer} {headId : String}
      (hact : act = .move n answer headId) (holds : w.workers.lookup n = some worker) :
      worker.fences (w.ledger.jobs.queued .create) answer = true := by
    subst hact
    simpa [fenced, holds] using hfenced
  refine ⟨hsettled.step hstepped rfl (fun write _ => w.ledger.renews_waits lib write) ?_, ?_⟩
  · intro n worker answer turn headId hact holds turned phase hphase hkind _ _ hcloses
    exact turned.not_waits (hfits n worker holds) (hfence hact holds) hkind phase hphase hcloses
  · refine hstepped.ledger hcreating fun write hwrites => hcreating.step ?_
    rintro rfl
    cases hwrites with
    | outside outside => cases outside
    | @turned n worker answer turn headId _ holds turned written =>
      obtain ⟨hkind, hcloses, ack, now, rfl⟩ := turned.closes written
      exact (hsettled n worker holds hkind).2
        (Worker.queued_of_fences hkind hcloses (hfence rfl holds)) hcloses

/-- In a run in which no worker completes a create job that was queued again after its claim, every
card that waits for its link has an open create job. -/
theorem run_creating (lib : Libs) {acts : List Act}
    (hfenced : Along (World.step lib) (fun w act => w.fenced act = true) .empty acts) :
    (runFrom (World.step lib) .empty acts).ledger.Creating := by
  refine (hfenced.preserves (p := fun w => w.Fits ∧ w.Settled Card.waits .create Phase.closes ∧
    w.ledger.Creating) (fun w act hw hfenced => ⟨hw.1.step act, ?_⟩) ⟨?_, ?_, ?_⟩).2.2
  · exact Creating.step hw.1 hw.2.1 hw.2.2 hfenced
  · exact fun n x hx => by cases hx
  · exact fun n x hx => by cases hx
  · rintro ⟨h, hh, -⟩
    cases hh

section Sample

open Card

def owner (action : LinkAction) (now : Int) (next : Char) : Act :=
  .command action (context now 5) now (hexId next)

def isClaimed : List Act :=
  [owner draftAction 0 'a', owner (ownerAction .approve 'a' 1) 0 'b',
    .claim 0 .create true 0, .move 0 (.tenant true) ""]

/-- The owner takes the approval back before the worker reads the card, and approves again after. -/
def approvedAgain : List Act :=
  isClaimed ++ [owner (ownerAction .edit 'b' 1) 10 'c', .move 0 (.card true) "",
    owner (ownerAction .approve 'c' 1) 20 'd']

def after (acts : List Act) : World := runFrom (step plainLibs) .empty acts

end Sample

theorem run_creating_approvedAgain :
    Along (World.step Card.plainLibs) (fun w act => w.fenced act = true) .empty approvedAgain ∧
      (runFrom (World.step Card.plainLibs) .empty approvedAgain).ledger.jobs.isOpen .create := by
  have hfenced : Along (World.step Card.plainLibs) (fun w act => w.fenced act = true) .empty
      approvedAgain := by decide +kernel
  have hwaits : (runFrom (World.step Card.plainLibs) .empty approvedAgain).ledger.card.waits := by
    decide +kernel
  exact ⟨hfenced, run_creating Card.plainLibs hfenced hwaits⟩

theorem create_job_closed :
    let w := after (approvedAgain ++ [.move 0 (.write .ok 30) ""])
    w.ledger.card.waits ∧ ¬w.ledger.jobs.isOpen .create := by
  decide +kernel

end World

end Colony.Money
