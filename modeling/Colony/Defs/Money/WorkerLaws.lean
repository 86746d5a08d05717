import Colony.Defs.Money.Workers

namespace Colony.Money

open Colony.Core Colony.Data

variable {lib : Libs}

def Phase.applies : Phase → Option (SystemOp × Ending)
  | .link created => some (created.op, .complete)
  | .apply op ending => some (op, ending)
  | _ => none

def Ending.write (ending : Ending) (kind : JobKind) (now : Int) : Write :=
  match ending with
  | .complete => .complete kind
  | .later delaySecs => .later kind (now + delaySecs)

def Phase.fallible : Phase → Bool
  | .read | .connect _ | .save _ | .link _ | .apply _ _ | .finish _ => true
  | _ => false

def Write.op : Write → Option LinkOp
  | .commit call _ => call.op
  | _ => none

namespace Worker

variable {worker : Worker} {current : Option LinkHead} {answer : Answer}

inductive Turned (lib : Libs) (current : Option LinkHead) (worker : Worker) : Answer → Turn → Prop
  | begun (phase : worker.phase = .start) :
    Turned lib current worker (.tenant true) ⟨none, some worker.afterTenant⟩
  | orphaned (phase : worker.phase = .start) :
    Turned lib current worker (.tenant false) ⟨none, some .forget⟩
  | read (phase : worker.phase = .read) :
    Turned lib current worker (.card true) ⟨none, some (worker.afterRead lib current)⟩
  | connected {head : LinkHead} (phase : worker.phase = .connect head) :
    Turned lib current worker (.connection (some true)) ⟨none, some (.provide head)⟩
  | disconnected {head : LinkHead} (phase : worker.phase = .connect head) (failure : RunFailure) :
    Turned lib current worker (.connection (some false)) ⟨none, some (worker.failOrRetry failure)⟩
  | provided {head : LinkHead} (phase : worker.phase = .provide head)
      (answer : Except RunFailure SavedCreate) :
    Turned lib current worker (.provider answer)
      ⟨none, some (worker.afterProvider lib head answer)⟩
  | sent {head : LinkHead} (phase : worker.phase = .send head) (answers : SendAnswers) :
    Turned lib current worker (.sending answers) ⟨none, some (worker.afterSending (worker.sending head answers))⟩
  | paid {head : LinkHead} (phase : worker.phase = .record head) (result : EvidenceResult) :
    Turned lib current worker (.payment result) ⟨none, some (worker.afterPayment result)⟩
  | failed (answer : Answer) (phase : worker.phase.fallible = true)
      (lost : ∀ op ending, worker.phase.applies = some (op, ending) → ∃ ack now,
        answer = .write ack now ∧
          ∀ change, (systemCall lib current op now).apply lib current = .ok change → ack = .lost) :
    Turned lib current worker answer ⟨none, some worker.fails⟩
  | saved {created : Created} (phase : worker.phase = .save created) (ack : Ack) (now : Int)
      {next : Phase} (goes : next = .link created ∨ next = worker.fails) :
    Turned lib current worker (.write ack now) ⟨some (.save .create created), some next⟩
  | applied {op : SystemOp} {ending : Ending} {change : LinkChange} (ack : Ack) {now : Int}
      (phase : worker.phase.applies = some (op, ending))
      (taken : (systemCall lib current op now).apply lib current = .ok change)
      {next : Phase} (goes : next = .finish ending ∨ next = worker.fails) :
    Turned lib current worker (.write ack now)
      ⟨some (.commit (systemCall lib current op now) now), some next⟩
  | finished {ending : Ending} (phase : worker.phase = .finish ending) (ack : Ack) (now : Int)
      {next : Option Phase} (kept : ack ≠ .lost) (goes : next = none ∨ next = some worker.fails) :
    Turned lib current worker (.write ack now) ⟨some (ending.write worker.kind now), next⟩
  | gaveUp (phase : worker.phase = .giveUp) (ack : Ack) (now : Int) (kept : ack ≠ .lost) :
    Turned lib current worker (.write ack now)
      ⟨some (.commit (systemCall lib current gaveUp now) now), some .forget⟩
  | gaveUpLost (phase : worker.phase = .giveUp) (now : Int) :
    Turned lib current worker (.write .lost now) ⟨none, some .forget⟩
  | forgot (phase : worker.phase = .forget) (ack : Ack) (now : Int) (kept : ack ≠ .lost) :
    Turned lib current worker (.write ack now) ⟨some (.complete worker.kind), none⟩
  | rescheduled (phase : worker.phase = .reschedule) (ack : Ack) (now : Int) (kept : ack ≠ .lost)
      (nextAt : Int) :
    Turned lib current worker (.write ack now) ⟨some (.later worker.kind nextAt), none⟩
  | ended (now : Int) : Turned lib current worker (.write .lost now) ⟨none, none⟩

theorem applies_turned {op : SystemOp} {ending : Ending} (ack : Ack) (now : Int)
    (hphase : worker.phase.applies = some (op, ending)) :
    Turned lib current worker (.write ack now)
      (worker.applies lib current op now (.finish ending) ack) := by
  have hfallible : worker.phase.fallible = true := by
    cases hp : worker.phase <;> rw [hp] at hphase <;> first | rfl | cases hphase
  unfold applies
  dsimp only
  split
  · next change taken =>
    cases ack with
    | ok => exact .applied .ok hphase taken (.inl rfl)
    | lost =>
      exact .failed _ hfallible fun _ _ _ => ⟨.lost, now, rfl, fun _ _ => rfl⟩
    | unacked => exact .applied .unacked hphase taken (.inr rfl)
  · next e refused =>
    refine .failed _ hfallible fun _ _ hphase' => ⟨ack, now, rfl, fun change taken => ?_⟩
    cases hphase.symm.trans hphase'
    cases refused.symm.trans taken

theorem finish_turned {ending : Ending} (ack : Ack) (now : Int)
    (hphase : worker.phase = .finish ending) :
    Turned lib current worker (.write ack now)
      (worker.writes (ending.write worker.kind now) none ack) := by
  cases ack with
  | ok => exact .finished hphase .ok now (nofun) (.inl rfl)
  | lost =>
    exact .failed _ (by rw [hphase]; rfl) fun _ _ h => by rw [hphase] at h; cases h
  | unacked => exact .finished hphase .unacked now (nofun) (.inr rfl)

theorem next_turned {turn : Turn} (hnext : worker.next lib current answer = some turn) :
    Turned lib current worker answer turn := by
  cases answer with
  | tenant found =>
    cases hphase : worker.phase <;> simp only [next, hphase, reduceCtorEq, Option.some.injEq] at hnext
    subst hnext
    cases found with
    | true => exact .begun hphase
    | false => exact .orphaned hphase
  | card read =>
    cases hphase : worker.phase <;> simp only [next, hphase, reduceCtorEq, Option.some.injEq] at hnext
    subst hnext
    cases read with
    | true => exact .read hphase
    | false => exact .failed _ (by rw [hphase]; rfl) fun _ _ h => by rw [hphase] at h; cases h
  | connection found =>
    cases hphase : worker.phase <;> simp only [next, hphase, reduceCtorEq, Option.some.injEq] at hnext
    subst hnext
    match found with
    | none => exact .failed _ (by rw [hphase]; rfl) fun _ _ h => by rw [hphase] at h; cases h
    | some false => exact .disconnected hphase _
    | some true => exact .connected hphase
  | provider answer =>
    cases hphase : worker.phase <;> simp only [next, hphase, reduceCtorEq, Option.some.injEq] at hnext
    subst hnext
    exact .provided hphase answer
  | sending answers =>
    cases hphase : worker.phase <;> simp only [next, hphase, reduceCtorEq, Option.some.injEq] at hnext
    subst hnext
    exact .sent hphase answers
  | payment result =>
    cases hphase : worker.phase <;> simp only [next, hphase, reduceCtorEq, Option.some.injEq] at hnext
    subst hnext
    exact .paid hphase result
  | write ack now =>
    cases hphase : worker.phase with
    | save created =>
      simp only [next, hphase, Option.some.injEq] at hnext
      subst hnext
      cases ack with
      | ok => exact .saved hphase .ok now (.inl rfl)
      | lost =>
        exact .failed _ (by rw [hphase]; rfl) fun _ _ h => by rw [hphase] at h; cases h
      | unacked => exact .saved hphase .unacked now (.inr rfl)
    | link created =>
      simp only [next, hphase, Option.some.injEq] at hnext
      subst hnext
      exact applies_turned ack now (by rw [hphase]; rfl)
    | apply op ending =>
      simp only [next, hphase, Option.some.injEq] at hnext
      subst hnext
      exact applies_turned ack now (by rw [hphase]; rfl)
    | finish ending =>
      cases ending <;> simp only [next, hphase, Option.some.injEq] at hnext <;> subst hnext <;>
        exact finish_turned ack now hphase
    | giveUp =>
      simp only [next, hphase, Option.some.injEq] at hnext
      subst hnext
      cases ack with
      | ok => exact .gaveUp hphase .ok now nofun
      | lost => exact .gaveUpLost hphase now
      | unacked => exact .gaveUp hphase .unacked now nofun
    | forget =>
      simp only [next, hphase, Option.some.injEq] at hnext
      subst hnext
      cases ack with
      | ok => exact .forgot hphase .ok now nofun
      | lost => exact .ended now
      | unacked => exact .forgot hphase .unacked now nofun
    | reschedule =>
      simp only [next, hphase, Option.some.injEq] at hnext
      subst hnext
      cases ack with
      | ok => exact .rescheduled hphase .ok now nofun _
      | lost => exact .ended now
      | unacked => exact .rescheduled hphase .unacked now nofun _
    | _ => simp only [next, hphase, reduceCtorEq] at hnext

theorem Turned.op {turn : Turn} (hturned : Turned lib current worker answer turn) :
    ∀ write ∈ turn.write, write.op = none := by
  rintro write hwrite
  cases hturned with
  | @finished ending => cases ending <;> cases hwrite <;> rfl
  | saved | applied | gaveUp | forgot | rescheduled =>
    cases hwrite
    rfl
  | _ => cases hwrite

def fits : JobKind → Phase → Bool
  | _, .start | _, .finish _ | _, .giveUp | _, .forget | _, .reschedule => true
  | .create, .read | .create, .connect _ | .create, .provide _ | .create, .save _ | .create, .link _ =>
    true
  | .create, .apply (.fail _ _ _) .complete => true
  | .send, .read | .send, .send _ => true
  | .send, .apply .delivered .complete | .send, .apply (.deliveryFailed _ _ _) .complete => true
  | .evidence, .read | .evidence, .record _ => true
  | .evidence, .apply (.evidenceRecorded _ _) _ | .evidence, .apply (.evidencePending _) _ => true
  | .expire, .apply .expire .complete => true
  | .grant, .apply .grantExpired .complete => true
  | _, _ => false

theorem fits_start (kind : JobKind) : fits kind .start = true := by
  cases kind <;> rfl

theorem fits_fails (kind : JobKind) (worker : Worker) : fits kind worker.fails = true := by
  unfold fails
  split <;> rfl

theorem fits_failOrRetry (worker : Worker) (failure : RunFailure) :
    fits .create (worker.failOrRetry failure) = true := by
  unfold failOrRetry
  split <;> rfl

theorem fits_afterRead (worker : Worker) :
    fits worker.kind (worker.afterRead lib current) = true := by
  unfold afterRead
  cases hkind : worker.kind <;> cases current <;> (try rfl) <;> dsimp only <;> split_ifs <;> (try rfl)
  cases worker.result <;> rfl

theorem fits_afterSending (worker : Worker) (sending : Sending) :
    fits .send (worker.afterSending sending) = true := by
  cases sending <;> first | rfl | exact fits_fails _ _

theorem kind_of_fits {phase : Phase} {kind : JobKind} (hfits : fits kind phase = true) :
    (∀ head, phase = .connect head ∨ phase = .provide head → kind = .create) ∧
      (∀ head, phase = .send head → kind = .send) ∧
      (∀ head, phase = .record head → kind = .evidence) := by
  refine ⟨?_, ?_, ?_⟩
  · rintro head (rfl | rfl) <;> cases kind <;> first | rfl | cases hfits
  · rintro head rfl
    cases kind <;> first | rfl | cases hfits
  · rintro head rfl
    cases kind <;> first | rfl | cases hfits

theorem Turned.fits {turn : Turn} (hturned : Turned lib current worker answer turn)
    (hfits : fits worker.kind worker.phase = true) :
    ∀ phase ∈ turn.phase, fits worker.kind phase = true := by
  have hkind := kind_of_fits hfits
  rintro phase hphase
  cases hturned with
  | begun =>
    cases hphase
    unfold afterTenant
    cases worker.kind <;> rfl
  | orphaned => cases hphase; cases worker.kind <;> rfl
  | read => cases hphase; exact worker.fits_afterRead
  | connected phase => cases hphase; rw [hkind.1 _ (.inl phase)]; rfl
  | disconnected phase => cases hphase; rw [hkind.1 _ (.inl phase)]; exact fits_failOrRetry _ _
  | provided phase answer =>
    cases hphase
    rw [hkind.1 _ (.inr phase)]
    unfold afterProvider
    split
    · exact fits_failOrRetry _ _
    · split
      · rfl
      · exact fits_failOrRetry _ _
  | sent phase => cases hphase; rw [hkind.2.1 _ phase]; exact fits_afterSending _ _
  | paid phase result => cases hphase; rw [hkind.2.2 _ phase]; cases result <;> rfl
  | failed => cases hphase; exact fits_fails _ _
  | saved phase ack now goes =>
    cases hphase
    rcases goes with rfl | rfl
    · rw [phase] at hfits
      generalize worker.kind = kind at hfits
      cases kind <;> first | rfl | cases hfits
    · exact fits_fails _ _
  | applied ack phase taken goes =>
    cases hphase
    rcases goes with rfl | rfl
    · cases worker.kind <;> rfl
    · exact fits_fails _ _
  | finished phase ack now kept goes =>
    rcases goes with rfl | rfl <;> cases hphase
    exact fits_fails _ _
  | gaveUp => cases hphase; cases worker.kind <;> rfl
  | gaveUpLost => cases hphase; cases worker.kind <;> rfl
  | forgot => cases hphase
  | rescheduled => cases hphase
  | ended => cases hphase

end Worker

namespace World

/-- The writes that come from outside the job runner: commands, notices and browser steps. -/
inductive Outside (lib : Libs) (w : World) : Act → Write → Prop
  | command (action : LinkAction) (ctx : LinkContext) (effectsAt : Int) (headId : String) :
    Outside lib w (.command action ctx effectsAt headId) (.commit (.act action ctx) effectsAt)
  | notice (noticeId : Uuid) (verifiedBy : Option VerifiedBy) (reference : Option String)
      (amountMinor : Option Int) (currency : Option String) (paidAt : Int)
      (mismatch : Option Mismatch) (now : Int) (headId : String) :
    Outside lib w
      (.notice noticeId verifiedBy reference amountMinor currency paidAt mismatch now headId)
      (.commit (Worker.systemCall lib w.head
        (.notice noticeId verifiedBy reference amountMinor currency paidAt mismatch) now) now)
  | grant (host kind : String) (refusal : Option (String × String)) (now : Int) (headId : String) :
    Outside lib w (.grant host kind refusal now headId) (.grant host kind refusal now)

inductive Stepped (lib : Libs) (w : World) : Act → World → Prop
  | same (act : Act) : Stepped lib w act w
  | wrote {act : Act} {write : Write} (outside : Outside lib w act write) (headId : String) :
    Stepped lib w act (w.write lib (some write) headId)
  | claimed {n : Nat} {kind : JobKind} {due : Bool} {now : Int} {job : Job}
      (claim : w.ledger.jobs.claimable kind due now = some job) :
    Stepped lib w (.claim n kind due now)
      { w with
        ledger := w.ledger.step lib (.claim kind due now)
        workers := w.setWorker n (some (w.claimed kind job)) }
  | turned {n : Nat} {worker : Worker} {answer : Answer} {turn : Turn} {headId : String}
      (holds : w.workers.lookup n = some worker)
      (turned : worker.Turned lib w.head answer turn) :
    Stepped lib w (.move n answer headId) (w.turn lib n worker turn headId)
  | dropped (n : Nat) :
    Stepped lib w (.drop n) { w with workers := w.setWorker n none }

theorem step_stepped (lib : Libs) (w : World) (act : Act) : Stepped lib w act (w.step lib act) := by
  cases act with
  | command action ctx effectsAt headId =>
    dsimp only [step]
    split
    · exact .wrote (.command action ctx effectsAt headId) headId
    · exact .same _
  | notice => exact .wrote (.notice ..) _
  | grant => exact .wrote (.grant ..) _
  | claim n kind due now =>
    dsimp only [step]
    split
    · next hclaim => exact .claimed hclaim
    · exact .same _
  | move n answer headId =>
    dsimp only [step]
    split
    · exact .same _
    · next worker hworker =>
      split
      · exact .same _
      · next turn hnext => exact .turned hworker (Worker.next_turned hnext)
  | drop n => exact .dropped n

inductive Writes (lib : Libs) (w : World) : Act → Write → Prop
  | outside {act : Act} {write : Write} (outside : Outside lib w act write) : Writes lib w act write
  | claim (n : Nat) (kind : JobKind) (due : Bool) (now : Int) :
    Writes lib w (.claim n kind due now) (.claim kind due now)
  | turned {n : Nat} {worker : Worker} {answer : Answer} {turn : Turn} {headId : String}
      {write : Write} (holds : w.workers.lookup n = some worker)
      (turned : worker.Turned lib w.head answer turn) (written : turn.write = some write) :
    Writes lib w (.move n answer headId) write

theorem Stepped.ledger {w w' : World} {act : Act} (hstepped : Stepped lib w act w')
    {p : Ledger → Prop} (hw : p w.ledger)
    (hwrites : ∀ write, w.Writes lib act write → p (w.ledger.step lib write)) : p w'.ledger := by
  cases hstepped with
  | same => exact hw
  | wrote outside => exact hwrites _ (.outside outside)
  | claimed => exact hwrites _ (.claim ..)
  | @turned n worker answer turn headId holds turned =>
    change p (turn.write.elim w.ledger (w.ledger.step lib))
    cases hwrite : turn.write with
    | none => exact hw
    | some write => exact hwrites write (.turned holds turned hwrite)
  | dropped => exact hw

end World

theorem Ledger.queued_le_step (lib : Libs) (l : Ledger) (write : Write) (kind : JobKind) :
    l.jobs.queued kind ≤ (l.step lib write).jobs.queued kind := by
  have hchanged := l.step_changed lib write
  generalize l.step lib write = l' at hchanged
  cases hchanged with
  | drafted => exact (Nat.le_add_right _ _).trans_eq JobTable.applyEffects_queued.symm
  | moved => exact (Nat.le_add_right _ _).trans_eq JobTable.applyEffects_queued.symm
  | _ => exact le_rfl

section Late

variable (lib) in
/-- A need of the card for a kind of job: it only arises in a write that queues the job. -/
def Ledger.Renews (need : Card → Prop) (kind : JobKind) (l : Ledger) (write : Write) : Prop :=
  need (l.step lib write).card →
    need l.card ∨ l.jobs.queued kind < (l.step lib write).jobs.queued kind

/-- A worker that is late in its job leaves a card that does not need the job, unless the job was
queued again after the worker claimed it. -/
def Worker.Settled (need : Card → Prop) (kind : JobKind) (late : Phase → Bool) (l : Ledger)
    (worker : Worker) : Prop :=
  worker.kind = kind → worker.queued ≤ l.jobs.queued kind ∧
    (worker.queued = l.jobs.queued kind → late worker.phase = true → ¬need l.card)

variable {need : Card → Prop} {kind : JobKind} {late : Phase → Bool} {l : Ledger} {worker : Worker}

theorem Worker.Settled.step (hs : worker.Settled need kind late l) {write : Write}
    (hrenews : l.Renews lib need kind write) :
    worker.Settled need kind late (l.step lib write) := by
  intro hkind
  obtain ⟨hle, hlate⟩ := hs hkind
  have hmono := l.queued_le_step lib write kind
  refine ⟨hle.trans hmono, fun heq hphase hneed => ?_⟩
  rcases hrenews hneed with hneed | hlt
  · exact hlate (hle.antisymm (heq ▸ hmono)) hphase hneed
  · exact absurd (heq ▸ hle) hlt.not_ge

theorem Worker.Settled.turn (hs : worker.Settled need kind late l) {phase : Phase}
    (henter : worker.kind = kind → worker.queued = l.jobs.queued kind → late worker.phase = false →
      late phase = true → ¬need l.card) :
    { worker with phase }.Settled need kind late l := by
  intro hkind
  obtain ⟨hle, hlate⟩ := hs hkind
  refine ⟨hle, fun heq hphase => ?_⟩
  cases hold : late worker.phase with
  | true => exact hlate heq hold
  | false => exact henter hkind heq hold hphase

def World.Settled (need : Card → Prop) (kind : JobKind) (late : Phase → Bool) (w : World) : Prop :=
  ∀ n worker, w.workers.lookup n = some worker → worker.Settled need kind late w.ledger

def World.Fits (w : World) : Prop :=
  ∀ n worker, w.workers.lookup n = some worker → Worker.fits worker.kind worker.phase = true

theorem World.workers_update {p : Worker → Prop} {w : World} {n : Nat} {x : Option Worker}
    (hw : ∀ m y, w.workers.lookup m = some y → p y) (hx : ∀ y ∈ x, p y) :
    ∀ m y, (w.setWorker n x).lookup m = some y → p y := by
  intro m y hy
  cases x with
  | none =>
    by_cases hm : m = n
    · subst hm
      cases (AList.lookup_erase m w.workers).symm.trans hy
    · exact hw m y ((AList.lookup_erase_ne hm).symm.trans hy)
  | some x =>
    by_cases hm : m = n
    · subst hm
      exact hx y ((AList.lookup_insert w.workers).symm.trans hy)
    · exact hw m y ((AList.lookup_insert_ne hm).symm.trans hy)

theorem World.Settled.step {w w' : World} {act : Act} (hw : w.Settled need kind late)
    (hstepped : Stepped lib w act w') (hstart : late .start = false)
    (hrenews : ∀ write, w.Writes lib act write → w.ledger.Renews lib need kind write)
    (henter : ∀ n worker answer turn headId, act = .move n answer headId →
      w.workers.lookup n = some worker → worker.Turned lib w.head answer turn →
      ∀ phase ∈ turn.phase, worker.kind = kind →
        worker.queued = (turn.write.elim w.ledger (w.ledger.step lib)).jobs.queued kind →
        late worker.phase = false → late phase = true →
        ¬need (turn.write.elim w.ledger (w.ledger.step lib)).card) :
    w'.Settled need kind late := by
  cases hstepped with
  | same => exact hw
  | wrote outside => exact fun n x hx => (hw n x hx).step (hrenews _ (.outside outside))
  | claimed =>
    refine World.workers_update (fun n x hx => (hw n x hx).step (hrenews _ (.claim ..))) ?_
    rintro _ ⟨⟩ rfl
    refine ⟨w.ledger.queued_le_step lib _ _, fun _ hlate => ?_⟩
    cases hstart.symm.trans hlate
  | @turned n worker answer turn headId holds turned =>
    have hledger (x : Worker) (hx : x.Settled need kind late w.ledger) :
        x.Settled need kind late (turn.write.elim w.ledger (w.ledger.step lib)) := by
      cases hwrite : turn.write with
      | none => exact hx
      | some write => exact hx.step (hrenews write (.turned holds turned hwrite))
    refine World.workers_update (fun m x hx => hledger x (hw m x hx)) fun y hy => ?_
    obtain ⟨phase, hphase, rfl⟩ := Option.map_eq_some_iff.1 hy
    exact (hledger worker (hw n worker holds)).turn
      (henter n worker answer turn headId rfl holds turned phase hphase)
  | dropped => exact World.workers_update hw fun y hy => (Option.not_mem_none y hy).elim

theorem World.Fits.step {w : World} (hw : w.Fits) (act : Act) : (w.step lib act).Fits := by
  have hstepped := w.step_stepped lib act
  generalize w.step lib act = w' at hstepped
  cases hstepped with
  | same => exact hw
  | wrote => exact hw
  | claimed =>
    refine World.workers_update hw ?_
    rintro _ ⟨⟩
    exact Worker.fits_start _
  | turned holds turned =>
    refine World.workers_update hw fun y hy => ?_
    obtain ⟨phase, hphase, rfl⟩ := Option.map_eq_some_iff.1 hy
    exact turned.fits (hw _ _ holds) phase hphase
  | dropped => exact World.workers_update hw fun y hy => (Option.not_mem_none y hy).elim

end Late

end Colony.Money
