import Colony.Defs.Money.CreateJob

namespace Colony.Money

open Colony.Core Colony.Data

variable {lib : Libs} {call : Call} {h head moved : LinkHead} {effects : List LinkEffect}

/-- What only an edit changes: the parties, the invoice, the amount, the purpose, the connection,
the recipient, the message and the life of the link. -/
def LinkHead.terms (h : LinkHead) : LinkHead :=
  { h with
    version := 0
    state := .draft
    expiresAt := none
    waitingFor := none
    approval := none
    approvalVoided := false
    browserGrant := none
    link := none
    delivery := none
    payment := none
    failure := none
    cancelReason := none
    updatedAt := 0
    sourceEventId := "" }

theorem LinkHead.digestFacts_terms (h : LinkHead) : h.terms.digestFacts = h.digestFacts := rfl

theorem LinkHead.approvalDigest_of_terms (hterms : head.terms = h.terms) :
    head.approvalDigest lib = h.approvalDigest lib := by
  unfold approvalDigest
  rw [← head.digestFacts_terms, hterms, h.digestFacts_terms]

section Moves

theorem Moved.terms (hmoved : Moved lib call h moved effects) (hop : call.op ≠ some .edit) :
    moved.terms = h.terms := by
  cases hmoved with
  | edited op => exact absurd (congrArg some op) hop
  | _ => rfl

theorem Moved.queueCreate (hmoved : Moved lib call h moved effects)
    (hqueue : LinkEffect.queueCreate ∈ effects) :
    LinkEffect.cancelJobs ∉ effects ∧ moved.approval.isSome = true := by
  cases hmoved with
  | edited op editable redrafted =>
    rcases redrafted.mem_effects hqueue with ⟨_, _, _, _, heq⟩ | heq <;> cases heq
  | approved op owner waiting facts begins => exact ⟨begins.not_cancelJobs, rfl⟩
  | retried op failed valid unlinked begins =>
    obtain ⟨approval, happroval, -⟩ := valid
    exact ⟨begins.not_cancelJobs, Option.isSome_iff_exists.2 ⟨approval, happroval⟩⟩
  | failed creating failure delivery grant left =>
    rcases left with rfl | ⟨rfl, -⟩
    · cases hqueue
    · cases List.mem_singleton.1 hqueue
  | _ =>
    first
    | exact absurd hqueue List.not_mem_nil
    | cases List.mem_singleton.1 hqueue

theorem LinkHead.reopened_of_approved (hsome : h.approval.isSome = true) :
    LinkEffect.cancelJobs ∈ h.reopened.2 := by
  rw [reopened, if_pos (.inl hsome)]
  exact List.mem_singleton_self _

theorem Moved.approved_kept (hmoved : Moved lib call h moved effects)
    (hkeep : LinkEffect.cancelJobs ∉ effects) (hsome : h.approval.isSome = true) :
    moved.terms = h.terms ∧ moved.approval.isSome = true := by
  cases hmoved with
  | @edited _ _ _ head _ op editable redrafted =>
    refine absurd (List.mem_append_right _ ?_) hkeep
    exact head.reopened_of_approved (redrafted.approval ▸ hsome)
  | rejected | mismatched | revoked => exact absurd (List.mem_singleton_self _) hkeep
  | approved => exact ⟨rfl, rfl⟩
  | _ => exact ⟨rfl, hsome⟩

end Moves

variable (lib) in
def Card.Matches (card : Card) (rendered : LinkHead) : Prop :=
  rendered.approvalIsValid lib ∧ ∃ h ∈ card.head, rendered.terms = h.terms

namespace Ledger

variable {l : Ledger} {write : Write}

theorem matches_step {rendered : LinkHead} (hm : l.card.Matches lib rendered)
    (hedit : write.op ≠ some .edit) : (l.step lib write).card.Matches lib rendered := by
  obtain ⟨hvalid, h, hh, hterms⟩ := hm
  have hchanged := l.step_changed lib write
  generalize l.step lib write = l' at hchanged
  cases hchanged with
  | drafted blank => cases blank.symm.trans hh
  | moved current moves =>
    obtain ⟨moved, now, sourceEventId, hmoved, rfl⟩ := moves
    cases current.symm.trans hh
    exact ⟨hvalid, _, rfl, hterms.trans (hmoved.terms hedit).symm⟩
  | granted current =>
    cases current.symm.trans hh
    exact ⟨hvalid, _, rfl, hterms⟩
  | _ => exact ⟨hvalid, h, hh, hterms⟩

theorem matches_write {rendered : LinkHead} (hm : l.card.Matches lib rendered)
    {write : Option Write} (hedit : ∀ write' ∈ write, write'.op = none) :
    (write.elim l (l.step lib)).card.Matches lib rendered := by
  cases write with
  | none => exact hm
  | some write => exact matches_step hm (hedit write rfl ▸ nofun)

variable (lib) in
/-- An open create job belongs to an approved card, and its saved result to the card's terms. -/
def Saved (l : Ledger) : Prop :=
  ∀ job ∈ l.jobs.row .create, job.done = false → (∃ h ∈ l.card.head, h.approval.isSome = true) ∧
    ∀ created ∈ job.result, l.card.Matches lib created.rendered

theorem Saved.modify (hl : l.Saved lib) {kind : JobKind} {f : Job → Job}
    (hdone : ∀ job, (f job).done = false → job.done = false)
    (hresult : kind = .create → ∀ job, (f job).done = false → ∀ created ∈ (f job).result,
      created ∈ job.result ∨ l.card.Matches lib created.rendered) :
    { l with jobs := l.jobs.modify kind f }.Saved lib := by
  intro job hjob hopen
  rw [JobTable.modify_row] at hjob
  split at hjob
  · next heq =>
    subst heq
    obtain ⟨job, hrow, rfl⟩ := Option.map_eq_some_iff.1 hjob
    obtain ⟨happroved, hmatches⟩ := hl job hrow (hdone job hopen)
    exact ⟨happroved, fun created hc => (hresult rfl job hopen created hc).elim (hmatches created) id⟩
  · exact hl job hjob hopen

theorem Saved.step (hl : l.Saved lib)
    (hsave : ∀ created, write = .save .create created → l.card.Matches lib created.rendered) :
    (l.step lib write).Saved lib := by
  have hchanged := l.step_changed lib write
  generalize l.step lib write = l' at hchanged
  cases hchanged with
  | same => exact hl
  | drafted blank drafted =>
    intro job hjob hopen
    obtain ⟨_, _, _, _, rfl⟩ := drafted.recipient
    obtain ⟨⟨h, hh, -⟩, -⟩ := hl job hjob hopen
    cases blank.symm.trans hh
  | @moved call effectsAt h head effects current moves =>
    obtain ⟨moved, now, sourceEventId, hmoved, rfl⟩ := moves
    intro job hjob hopen
    by_cases hqueue : LinkEffect.queueCreate ∈ effects
    · obtain ⟨hkeep, happroved⟩ := hmoved.queueCreate hqueue
      refine ⟨⟨_, rfl, happroved⟩, fun created hc => ?_⟩
      have hfresh := JobTable.fresh_applyEffects hkeep ⟨_, hqueue, rfl⟩ job hjob
      cases hfresh.2.1.symm.trans hc
    · -- The row is the one from before, so the card was approved and this is no edit.
      have hshut : ∀ e ∈ effects, e.opens (moved.touch now sourceEventId) .create = false :=
        fun e he => beq_false_of_ne fun heq => hqueue (heq ▸ he)
      rcases JobTable.applyEffects_row hshut with ⟨hkeep, hrow⟩ | ⟨-, hclosed⟩
      · obtain ⟨⟨h', hh', happroved⟩, hmatches⟩ := hl job (hrow ▸ hjob) hopen
        cases current.symm.trans hh'
        obtain ⟨hterms, hkept⟩ := hmoved.approved_kept hkeep happroved
        refine ⟨⟨_, rfl, hkept⟩, fun created hc => ?_⟩
        obtain ⟨hvalid, h', hh', heq⟩ := hmatches created hc
        cases current.symm.trans hh'
        exact ⟨hvalid, _, rfl, heq.trans hterms.symm⟩
      · exact absurd ⟨job, hjob, hopen⟩ hclosed
  | granted current browser grant sourceEventId =>
    intro job hjob hopen
    obtain ⟨⟨h, hh, happroved⟩, hmatches⟩ := hl job hjob hopen
    cases current.symm.trans hh
    refine ⟨⟨_, rfl, happroved⟩, fun created hc => ?_⟩
    obtain ⟨hvalid, h, hh, hterms⟩ := hmatches created hc
    cases current.symm.trans hh
    exact ⟨hvalid, _, rfl, hterms⟩
  | claimed => exact hl.modify (fun _ h => h) fun _ _ _ _ hc => .inl hc
  | later => exact hl.modify (fun _ h => h) fun _ _ _ _ hc => .inl hc
  | saved kind result =>
    refine hl.modify (fun _ h => h) fun hkind job _ created hc => ?_
    cases hc
    exact .inr (hsave _ (hkind ▸ rfl))
  | completed => exact hl.modify (fun _ h => by cases h) fun _ _ h => by cases h

end Ledger

namespace Worker

variable {worker : Worker} {current : Option LinkHead} {answer : Answer} {turn : Turn}

/-- The head a create worker's call in flight, or the result it has in hand, was rendered from. -/
def carried (worker : Worker) : Option LinkHead :=
  match worker.phase with
  | .start | .read =>
    if worker.kind = .create then worker.result.map Created.rendered else none
  | .connect head | .provide head => some head
  | .save created | .link created => some created.rendered
  | _ => none

theorem carried_fails (worker : Worker) : { worker with phase := worker.fails }.carried = none := by
  unfold fails
  split <;> rfl

theorem carried_failOrRetry (worker : Worker) (failure : RunFailure) :
    { worker with phase := worker.failOrRetry failure }.carried = none := by
  unfold failOrRetry
  split <;> rfl

theorem carried_afterRead (hphase : worker.phase = .read) {rendered : LinkHead}
    (hcarried : rendered ∈ { worker with phase := worker.afterRead lib current }.carried) :
    rendered ∈ worker.carried ∨ (current = some rendered ∧ rendered.state = .creatingLink) := by
  cases current with
  | none => cases hcarried
  | some head =>
    unfold afterRead at hcarried
    cases hkind : worker.kind <;> rw [hkind] at hcarried <;> dsimp only at hcarried
    case create =>
      split at hcarried
      · cases hcarried
      · next hwaits =>
        cases hresult : worker.result <;> rw [hresult] at hcarried <;> cases hcarried
        · exact .inr ⟨rfl, by_contra fun hstate => hwaits (.inl hstate)⟩
        · refine .inl ?_
          rw [carried, hphase, hkind, hresult]
          rfl
    case send =>
      split at hcarried
      · cases hcarried
      · split at hcarried <;> cases hcarried
    case evidence => split at hcarried <;> cases hcarried
    all_goals cases hcarried

theorem Turned.carried (hturned : Turned lib current worker answer turn) :
    ∀ phase ∈ turn.phase, ∀ rendered ∈ { worker with phase }.carried,
      rendered ∈ worker.carried ∨ (current = some rendered ∧ rendered.state = .creatingLink) := by
  rintro phase hphase rendered hcarried
  have none_of {phase : Phase} (hnone : { worker with phase }.carried = none)
      (hcarried : rendered ∈ { worker with phase }.carried) :
      rendered ∈ worker.carried ∨ (current = some rendered ∧ rendered.state = .creatingLink) := by
    rw [hnone] at hcarried
    cases hcarried
  cases hturned with
  | begun phase =>
    cases hphase
    refine .inl ?_
    rw [Worker.carried, phase]
    cases hkind : worker.kind <;> rw [Worker.carried, afterTenant, hkind] at hcarried <;>
      exact hcarried
  | orphaned => cases hphase; cases hcarried
  | read phase =>
    cases hphase
    exact carried_afterRead phase hcarried
  | connected phase =>
    cases hphase
    cases hcarried
    exact .inl (by rw [Worker.carried, phase]; rfl)
  | disconnected => cases hphase; exact none_of (carried_failOrRetry _ _) hcarried
  | provided phase answer =>
    cases hphase
    unfold afterProvider at hcarried
    split at hcarried
    · exact none_of (carried_failOrRetry _ _) hcarried
    · split at hcarried
      · cases hcarried
        exact .inl (by rw [Worker.carried, phase]; rfl)
      · exact none_of (carried_failOrRetry _ _) hcarried
  | @sent head phase answers =>
    cases hphase
    generalize worker.sending head answers = sending at hcarried
    cases sending with
    | error => exact none_of (carried_fails _) hcarried
    | _ => cases hcarried
  | paid phase result => cases hphase; cases result <;> cases hcarried
  | failed => cases hphase; exact none_of (carried_fails _) hcarried
  | saved phase ack now goes =>
    cases hphase
    rcases goes with rfl | rfl
    · cases hcarried
      exact .inl (by rw [Worker.carried, phase]; rfl)
    · exact none_of (carried_fails _) hcarried
  | applied ack phase taken goes =>
    cases hphase
    rcases goes with rfl | rfl
    · cases hcarried
    · exact none_of (carried_fails _) hcarried
  | finished phase ack now kept goes =>
    rcases goes with rfl | rfl <;> cases hphase
    exact none_of (carried_fails _) hcarried
  | gaveUp => cases hphase; cases hcarried
  | gaveUpLost => cases hphase; cases hcarried
  | forgot => cases hphase
  | rescheduled => cases hphase
  | ended => cases hphase

theorem Turned.save (hturned : Turned lib current worker answer turn) {kind : JobKind}
    {created : Created} (hwrite : turn.write = some (.save kind created)) :
    created.rendered ∈ worker.carried := by
  cases hturned with
  | saved phase =>
    cases hwrite
    rw [Worker.carried, phase]
    rfl
  | @finished ending => cases ending <;> cases hwrite
  | _ => cases hwrite

end Worker

/-- The call behind a recorded link was made under the approval that is on the card. -/
def Recorded.Current (r : Recorded) : Prop :=
  r.rendered.terms = r.head.terms ∧ ∃ digest,
    r.rendered.approval.map Approval.digest = some digest ∧
      r.head.approval.map Approval.digest = some digest

namespace World

variable {w : World}

variable (lib) in
structure Rendering (w : World) : Prop where
  inv : w.ledger.card.Inv lib
  saved : w.ledger.Saved lib
  carried : ∀ n worker, w.workers.lookup n = some worker →
    ∀ rendered ∈ worker.carried, w.ledger.card.Matches lib rendered
  recorded : ∀ r ∈ w.recorded, r.Current

/-- An edit while a worker has a provider call of the card in flight, or its result in hand. -/
def editsInFlight (w : World) : Act → Bool
  | .command action _ _ _ =>
    action.op == .edit && w.workers.entries.any fun entry => entry.2.carried.isSome
  | _ => false

theorem current_of_records {l : Ledger} {before : Option LinkHead} {worker : Worker} {r : Recorded}
    (hinv : l.card.Inv lib)
    (hcarried : ∀ rendered ∈ worker.carried, l.card.Matches lib rendered)
    (hr : r ∈ records before l.card.head worker.phase) : r.Current := by
  cases hphase : worker.phase with
  | link created =>
    obtain ⟨⟨approval, happroval, hvalid⟩, h, hh, hterms⟩ :=
      hcarried created.rendered (by rw [Worker.carried, hphase]; rfl)
    rw [hphase, show l.card.head = some h from hh] at hr
    cases before with
    | none => cases hr
    | some h₀ =>
      dsimp only [records] at hr
      split at hr
      · next hlink =>
        cases hr
        obtain ⟨a, -, hcurrent, -, -, hdigest, -⟩ := (hinv.sound h hh).backed (.inl hlink.1)
        refine ⟨hterms, h.approvalDigest lib, ?_, ?_⟩
        · rw [show created.rendered.approval = some approval from happroval, Option.map_some, hvalid,
            LinkHead.approvalDigest_of_terms hterms]
        · rw [hcurrent, Option.map_some, hdigest]
      · cases hr
  | _ =>
    rw [hphase] at hr
    cases hr

theorem Rendering.step (hw : w.Rendering lib) {act : Act} (hkeep : w.editsInFlight act = false) :
    (w.step lib act).Rendering lib := by
  have hstepped := w.step_stepped lib act
  generalize w.step lib act = w' at hstepped
  cases hstepped with
  | same => exact hw
  | @wrote _ write outside headId =>
    refine ⟨Ledger.inv_step hw.inv write, hw.saved.step ?_, fun n worker holds rendered hr => ?_,
      hw.recorded⟩
    · rintro created rfl
      cases outside
    · refine Ledger.matches_step (hw.carried n worker holds rendered hr) ?_
      cases outside with
      | command action ctx effectsAt headId =>
        intro hedit
        have hop : action.op = .edit := Option.some.inj hedit
        simp only [editsInFlight, hop, beq_self_eq_true, Bool.true_and, List.any_eq_false] at hkeep
        have hmem := (Dict.mem_lookup_entries w.workers n worker).1 holds
        exact hkeep _ hmem (Option.isSome_iff_exists.2 ⟨rendered, hr⟩)
      | notice => nofun
      | grant => nofun
  | @claimed n kind due now job claim =>
    have hkept {rendered : LinkHead} (hm : w.ledger.card.Matches lib rendered) :
        (w.ledger.step lib (.claim kind due now)).card.Matches lib rendered :=
      Ledger.matches_step hm nofun
    refine ⟨Ledger.inv_step hw.inv _, hw.saved.step ?_, World.workers_update ?_ ?_, hw.recorded⟩
    · rintro created ⟨⟩
    · exact fun m worker holds rendered hr => hkept (hw.carried m worker holds rendered hr)
    · rintro _ ⟨⟩ rendered hr
      obtain ⟨hrow, hopen⟩ := JobTable.claimable_eq_some claim
      rw [Worker.carried, claimed] at hr
      dsimp only at hr
      split at hr
      · next hkind =>
        subst hkind
        obtain ⟨created, hcreated, rfl⟩ := Option.map_eq_some_iff.1 hr
        exact hkept ((hw.saved job hrow hopen).2 created hcreated)
      · cases hr
  | @turned n worker answer turn headId holds turned =>
    have hkept {rendered : LinkHead} (hm : w.ledger.card.Matches lib rendered) :=
      Ledger.matches_write hm turned.op
    have hinv : (turn.write.elim w.ledger (w.ledger.step lib)).card.Inv lib := by
      cases turn.write with
      | none => exact hw.inv
      | some write => exact Ledger.inv_step hw.inv write
    refine ⟨hinv, ?_, World.workers_update ?_ ?_, ?_⟩
    · change (turn.write.elim w.ledger (w.ledger.step lib)).Saved lib
      cases hwrite : turn.write with
      | none => exact hw.saved
      | some write =>
        refine hw.saved.step ?_
        rintro created rfl
        exact hw.carried n worker holds _ (turned.save hwrite)
    · exact fun m x hx rendered hr => hkept (hw.carried m x hx rendered hr)
    · intro y hy rendered hr
      obtain ⟨phase, hphase, rfl⟩ := Option.map_eq_some_iff.1 hy
      refine hkept ?_
      rcases turned.carried phase hphase rendered hr with hold | ⟨hhead, hstate⟩
      · exact hw.carried n worker holds rendered hold
      · have hbacked := (hw.inv.sound rendered hhead).backed (.inr (.inl hstate))
        exact ⟨hbacked.valid, rendered, hhead, rfl⟩
    · intro r hr
      rcases List.mem_append.1 hr with hr | hr
      · exact hw.recorded r hr
      · refine current_of_records hinv (fun rendered hc => hkept (hw.carried n worker holds rendered hc))
          (Option.mem_toList.1 hr)
  | dropped =>
    refine ⟨hw.inv, hw.saved, World.workers_update hw.carried ?_, hw.recorded⟩
    exact fun y hy => (Option.not_mem_none y hy).elim

/-- In a run without edits in flight, every recorded link was rendered under the approval it was
recorded under. -/
theorem run_recorded (lib : Libs) {acts : List Act}
    (hkeep : Along (World.step lib) (fun w act => w.editsInFlight act = false) .empty acts) :
    ∀ r ∈ (runFrom (World.step lib) .empty acts).recorded, r.Current := by
  refine (hkeep.preserves (p := Rendering lib) (fun w act hw hkeep => hw.step hkeep)
    ⟨Card.inv_blank, ?_, ?_, ?_⟩).recorded
  · exact fun job hjob => (Option.not_mem_none job hjob).elim
  · exact fun n worker holds => by cases holds
  · exact fun r hr => (List.not_mem_nil hr).elim

section Sample

open Card

def calling : List Act :=
  isClaimed ++ [.move 0 (.card true) "", .move 0 (.connection (some true)) ""]

def answers : List Act :=
  [.move 0 (.provider (.ok ⟨"https://pay.example/1", some "plink_1", 50000, "ZAR"⟩)) "",
    .move 0 (.write .ok 50) "", .move 0 (.write .ok 50) (hexId 'e')]

/-- The owner gives the link another day while the call is in flight, and approves that. -/
def editedInFlight : List Act :=
  calling ++ [owner (ownerAction .edit 'b' 2) 10 'c', owner (ownerAction .approve 'c' 2) 20 'd'] ++
    answers

end Sample

theorem run_recorded_answers :
    Along (World.step Card.plainLibs) (fun w act => w.editsInFlight act = false) .empty
        (calling ++ answers) ∧
      (runFrom (World.step Card.plainLibs) .empty (calling ++ answers)).recorded.length = 1 ∧
      ∀ r ∈ (runFrom (World.step Card.plainLibs) .empty (calling ++ answers)).recorded, r.Current := by
  have hkeep : Along (World.step Card.plainLibs) (fun w act => w.editsInFlight act = false) .empty
      (calling ++ answers) := by decide +kernel
  exact ⟨hkeep, by decide +kernel, run_recorded Card.plainLibs hkeep⟩

theorem recorded_under_new_approval :
    ∃ r ∈ (after editedInFlight).recorded, r.rendered.expiresInDays = 1 ∧ r.head.expiresInDays = 2 ∧
      r.rendered.approval.map Approval.digest ≠ r.head.approval.map Approval.digest := by
  decide +kernel

end World

def LinkHead.settled (h : LinkHead) : Option CreatedLink × LinkHead × Option Approval :=
  (h.link, h.terms, h.approval)

theorem Moved.settled {approvals : List Approved} (hmoved : Moved lib call h moved effects)
    (hs : h.Sound lib approvals) (hlink : h.linkExists) : moved.settled = h.settled := by
  cases hmoved with
  | edited op editable => exact absurd hlink (hs.unlinked_of_editable editable).1
  | approved op owner waiting => exact absurd hlink (hs.unlinked (.inr waiting))
  | rejected op waiting => exact absurd hlink (hs.unlinked waiting)
  | linked _ unlinked | mismatched _ unlinked => exact absurd hlink unlinked
  | revoked op failed invalid => exact absurd (hs.backed (.inr (.inr failed))).valid invalid
  | _ => rfl

theorem Card.Inv.settled {card : Card} (hinv : card.Inv lib) (hhead : card.head = some h)
    (hlink : h.linkExists) (call : Call) : ∃ h' ∈ (card.step lib call).head, h'.settled = h.settled := by
  rcases card.step_cases call with heq | ⟨_, _, ⟨hnone, -⟩ | ⟨h', hh', hmoves⟩, heq⟩ <;> rw [heq]
  · exact ⟨h, hhead, rfl⟩
  · cases hnone.symm.trans hhead
  · cases hh'.symm.trans hhead
    obtain ⟨moved, now, sourceEventId, hmoved, rfl⟩ := hmoves
    exact ⟨_, rfl, (hmoved.settled (hinv.sound h hhead) hlink :)⟩

/-- The link that a card once has it keeps in every run, with its terms and its approval. -/
theorem Card.run_linked (lib : Libs) (calls more : List Call) {h : LinkHead}
    (hhead : (runFrom (Card.step lib) .blank calls).head = some h) (hlink : h.linkExists) :
    ∃ h' ∈ (runFrom (Card.step lib) .blank (calls ++ more)).head, h'.settled = h.settled := by
  rw [runFrom_append]
  refine (runFrom_history (p := fun _ (card : Card) => card.Inv lib ∧ ∃ h' ∈ card.head,
    h'.settled = h.settled) ⟨inv_blank.run calls, h, hhead, rfl⟩ ?_ more).2
  rintro _ call ⟨hinv, h', hhead', hsame⟩
  have hlink' : h'.link = h.link := congrArg Prod.fst hsame
  rw [LinkHead.linkExists, ← hlink'] at hlink
  obtain ⟨h₁, hhead₁, hsame₁⟩ := hinv.settled hhead' hlink call
  exact ⟨hinv.step call, h₁, hhead₁, hsame₁.trans hsame⟩

theorem Card.run_linked_isSent : ∃ h ∈ (after isSent).head, h.linkExists ∧
    ∃ h' ∈ (after (isSent ++ [relay unsignedNotice 30, gives .cancel 40])).head,
      h'.settled = h.settled := by
  have hsent : ∃ h ∈ (after isSent).head, h.linkExists := by decide +kernel
  obtain ⟨h, hhead, hlink⟩ := hsent
  exact ⟨h, hhead, hlink, run_linked plainLibs isSent _ hhead hlink⟩

end Colony.Money
