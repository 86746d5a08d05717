import Colony.Defs.Money.Rendered

namespace Colony.Money

open Colony.Core Colony.Data

variable {lib : Libs} {call : Call} {h head moved : LinkHead} {effects : List LinkEffect}

/-- The link goes out, is out, or is out again if a report is dismissed, without being queued
anew. -/
def LinkHead.mayBeSent (h : LinkHead) : Prop :=
  h.expiresAt.isSome = true ∧
    (h.state = .creatingLink ∨ (h.state = .failed ∧ h.linkExists) ∨ h.state = .sent ∨
      (h.state = .paymentReported ∧ ¬h.paymentIs .verified))

def LinkHead.readyToExpire (h : LinkHead) (now : Int) : Prop :=
  h.state ≠ .creatingLink ∧ ¬(h.state = .failed ∧ h.linkExists) ∧
    (h.state = .sent ∨ h.state = .paymentReported → ∀ e ∈ h.expiresAt, e ≤ now)

instance (h : LinkHead) (now : Int) : Decidable (h.readyToExpire now) :=
  inferInstanceAs (Decidable (_ ∧ _))

def Card.sendable (card : Card) : Prop := card.lapsed = false ∧ ∃ h ∈ card.head, h.mayBeSent

theorem Begins.opens_expire {grant : Option BrowserGrant} (hb : Begins h grant effects)
    (hexpires : head.expiresAt.isSome = true) : ∃ e ∈ effects, e.opens head .expire = true := by
  rcases hb.effects_eq with rfl | rfl
  · exact ⟨_, List.mem_singleton_self _, by simpa [LinkEffect.opens] using hexpires⟩
  · exact ⟨_, List.mem_singleton_self _, by simpa [LinkEffect.opens] using hexpires⟩

theorem LinkHead.editable_congr (hstate : head.state = h.state) (hlink : head.link = h.link) :
    head.editable = h.editable := by
  have hexists : head.linkExists ↔ h.linkExists := by rw [linkExists, linkExists, hlink]
  unfold editable
  rw [hstate]
  cases h.state <;> simp [hexists]

theorem LinkHead.reopened_not_mayBeSent (heditable : head.editable = true) :
    ¬head.reopened.1.mayBeSent := by
  rintro ⟨-, hstate⟩
  rcases head.reopened_state with hs | ⟨hs, hcreating, hfailed⟩ <;> rw [hs] at hstate
  · simp at hstate
  · unfold editable at heditable
    cases hh : head.state <;> simp [hh] at hstate hcreating hfailed heditable

theorem LinkHead.not_verified_of_reported (hreported : h.paymentIs .reported) :
    ¬h.paymentIs .verified := by
  rintro ⟨payment, hpayment, hverified⟩
  obtain ⟨payment', hpayment', hstate⟩ := hreported
  cases hpayment.symm.trans hpayment'
  cases hverified.symm.trans hstate

theorem Moved.mayBeSent (hmoved : Moved lib call h moved effects) (hop : call.op ≠ some .markSent)
    (hlive : h.state.lapses = false) (hmay : moved.mayBeSent) :
    LinkEffect.cancelJobs ∉ effects ∧
      ((h.mayBeSent ∧ moved.expiresAt = h.expiresAt) ∨
        ∃ e ∈ effects, e.opens moved .expire = true) := by
  obtain ⟨hexpires, hstate⟩ := hmay
  cases hmoved with
  | @edited _ _ _ head _ op editable redrafted =>
    refine absurd ⟨hexpires, hstate⟩ (head.reopened_not_mayBeSent ?_)
    rw [LinkHead.editable_congr redrafted.state redrafted.link]
    exact editable
  | approved op owner waiting facts begins =>
    exact ⟨begins.not_cancelJobs, .inr (begins.opens_expire rfl)⟩
  | retried op failed valid unlinked begins =>
    exact ⟨begins.not_cancelJobs, .inr (begins.opens_expire hexpires)⟩
  | markedSent op => exact absurd (congrArg some op) hop
  | linked creating => exact ⟨by simp, .inl ⟨⟨hexpires, .inl creating⟩, rfl⟩⟩
  | failed creating failure delivery grant left =>
    rcases left with rfl | ⟨rfl, hlink⟩
    · exact ⟨List.not_mem_nil, .inl ⟨⟨hexpires, .inl creating⟩, rfl⟩⟩
    · simp at hstate
      exact absurd hstate hlink
  | reported counts unconfirmed payment state =>
    refine ⟨List.not_mem_nil, .inl ⟨⟨hexpires, ?_⟩, rfl⟩⟩
    rcases counts with hsent | ⟨hlink, htakes⟩
    · exact .inr (.inr (.inl hsent))
    · unfold LinkHead.takesPayment at htakes
      cases hs : h.state <;> simp [hs, LinkState.lapses, hlink] at htakes hlive unconfirmed ⊢
      exact unconfirmed
  | verified link counts unconfirmed source reference paidAt noticeId =>
    simp [LinkHead.verifiedBy, LinkHead.paymentIs] at hstate
  | dismissed op reported unconfirmed =>
    refine ⟨List.not_mem_nil, .inl ⟨⟨hexpires, .inr (.inr (.inr ⟨reported, ?_⟩))⟩, rfl⟩⟩
    exact LinkHead.not_verified_of_reported unconfirmed
  | resent op failed valid link =>
    exact ⟨by simp, .inl ⟨⟨hexpires, .inr (.inl ⟨failed, link⟩)⟩, rfl⟩⟩
  | delivered unsent link =>
    refine ⟨List.not_mem_nil, .inl ⟨⟨hexpires, ?_⟩, rfl⟩⟩
    exact unsent.elim .inl fun hf => .inr (.inl ⟨hf, link⟩)
  | pending reported verified =>
    simp [reported] at hstate
    exact absurd verified hstate
  | _ => simp [LinkHead.voidApproval] at hstate

namespace Ledger

variable {l : Ledger} {write : Write}

/-- A cancelled or expired card is known to have lapsed, and it stays in the states after that. -/
structure Lapsing (l : Ledger) : Prop where
  marked : ∀ h ∈ l.card.head, h.state.lapses = true → l.card.lapsed = true
  past : l.card.lapsed = true → ∃ h ∈ l.card.head, h.state.past = true

theorem Lapsing.step (hl : l.Lapsing)
    (hkeep : l.card.lapsed = true → write.op ≠ some .dismissReport) : (l.step lib write).Lapsing := by
  have hchanged := l.step_changed lib write
  generalize l.step lib write = l' at hchanged
  cases hchanged with
  | drafted blank drafted =>
    refine ⟨?_, fun hlapsed => ?_⟩
    · rintro _ ⟨⟩ hlapses
      exact Bool.or_eq_true_iff.2 (.inr hlapses)
    · rcases Bool.or_eq_true_iff.1 hlapsed with hlapsed | hlapses
      · obtain ⟨h, hh, -⟩ := hl.past hlapsed
        cases blank.symm.trans hh
      · exact ⟨_, rfl, LinkState.past_of_lapses hlapses⟩
  | moved current moves =>
    obtain ⟨moved, now, sourceEventId, hmoved, rfl⟩ := moves
    refine ⟨?_, fun hlapsed => ⟨_, rfl, ?_⟩⟩
    · rintro _ ⟨⟩ hlapses
      exact Bool.or_eq_true_iff.2 (.inr hlapses)
    · rcases Bool.or_eq_true_iff.1 hlapsed with hlapsed | hlapses
      · obtain ⟨h, hh, hpast⟩ := hl.past hlapsed
        cases current.symm.trans hh
        exact (hmoved.past hpast (hkeep hlapsed) :)
      · exact LinkState.past_of_lapses hlapses
  | granted current =>
    refine ⟨?_, fun hlapsed => ⟨_, rfl, ?_⟩⟩
    · rintro _ ⟨⟩ hlapses
      exact hl.marked _ current hlapses
    · obtain ⟨h, hh, hpast⟩ := hl.past hlapsed
      cases current.symm.trans hh
      exact hpast
  | _ => exact ⟨hl.marked, hl.past⟩

theorem Lapsing.live (hl : l.Lapsing) (hh : l.card.head = some h) {effectsAt : Int}
    (hlapsed : (l.store call effectsAt head effects).card.lapsed = false) :
    l.card.lapsed = false ∧ h.state.lapses = false := by
  have hbefore : l.card.lapsed = false := (Bool.or_eq_false_iff.1 hlapsed).1
  refine ⟨hbefore, Bool.eq_false_iff.2 fun hlapses => ?_⟩
  cases hbefore.symm.trans (hl.marked h hh hlapses)

theorem renews_sendable (hl : l.Lapsing) (hop : write.op ≠ some .markSent) :
    l.Renews lib Card.sendable .expire write := by
  have hchanged := l.step_changed lib write
  unfold Renews
  generalize l.step lib write = l' at hchanged
  rintro ⟨hlapsed, h', hh', hmay⟩
  cases hchanged with
  | drafted blank drafted =>
    cases hh'
    have hstate := hmay.2
    rcases drafted.state with hs | hs <;> simp [hs] at hstate
  | moved current moves =>
    obtain ⟨moved, now, sourceEventId, hmoved, rfl⟩ := moves
    cases hh'
    obtain ⟨hbefore, hlive⟩ := hl.live current hlapsed
    rcases (hmoved.mayBeSent hop hlive hmay).2 with ⟨hold, -⟩ | hopens
    · exact .inl ⟨hbefore, _, current, hold⟩
    · exact .inr (JobTable.queued_lt_applyEffects hopens)
  | granted current =>
    cases hh'
    exact .inl ⟨hlapsed, _, current, hmay⟩
  | _ => exact .inl ⟨hlapsed, h', hh', hmay⟩

/-- A card that may be sent has an open expire job, due by the time its link expires. -/
def Expiring (l : Ledger) : Prop :=
  l.card.sendable → ∃ job ∈ l.jobs.row .expire, job.done = false ∧
    ∀ h ∈ l.card.head, ∀ expiresAt ∈ h.expiresAt, job.nextAt ≤ expiresAt

theorem Expiring.modify (hl : l.Expiring) {kind : JobKind} {f : Job → Job}
    (hf : kind = .expire → ∀ job, (f job).done = job.done ∧ (f job).nextAt = job.nextAt) :
    { l with jobs := l.jobs.modify kind f }.Expiring := by
  intro hsendable
  obtain ⟨job, hjob, hopen, hdue⟩ := hl hsendable
  by_cases hkind : .expire = kind
  · obtain ⟨hdone, hnext⟩ := hf hkind.symm job
    refine ⟨f job, ?_, hdone.trans hopen, hnext.symm ▸ hdue⟩
    rw [JobTable.modify_row, if_pos hkind, ← hkind, hjob]
    rfl
  · refine ⟨job, ?_, hopen, hdue⟩
    rw [JobTable.modify_row, if_neg hkind]
    exact hjob

theorem Expiring.step (hl : l.Expiring) (hlapsing : l.Lapsing) (hop : write.op ≠ some .markSent)
    (hkeep : write = .complete .expire ∨ (∃ nextAt, write = .later .expire nextAt) →
      ¬l.card.sendable) : (l.step lib write).Expiring := by
  have hchanged := l.step_changed lib write
  generalize l.step lib write = l' at hchanged
  cases hchanged with
  | same => exact hl
  | drafted blank drafted =>
    rintro ⟨-, h', ⟨⟩, -, hstate⟩
    rcases drafted.state with hs | hs <;> simp [hs] at hstate
  | @moved call effectsAt h head effects current moves =>
    obtain ⟨moved, now, sourceEventId, hmoved, rfl⟩ := moves
    rintro ⟨hlapsed, h', ⟨⟩, hmay⟩
    obtain ⟨hbefore, hlive⟩ := hlapsing.live current hlapsed
    obtain ⟨hcancel, hmay⟩ := hmoved.mayBeSent hop hlive hmay
    have hdue : ∃ job ∈ (l.jobs.applyEffects (moved.touch now sourceEventId)
        (call.actorPubkey (moved.touch now sourceEventId)) effectsAt effects).row .expire,
        job.done = false ∧ ∀ expiresAt ∈ moved.expiresAt, job.nextAt ≤ expiresAt := by
      refine JobTable.applyEffects_holds (fun job hf => ⟨hf.1, fun e he => ?_⟩) hcancel ?_
      · exact Int.le_of_eq (Option.some.inj ((hf.2.2 rfl).symm.trans he))
      · refine hmay.imp_left fun ⟨hold, hsame⟩ => ?_
        obtain ⟨job, hjob, hopen, hdue⟩ := hl ⟨hbefore, h, current, hold⟩
        exact ⟨job, hjob, hopen, fun e he => hdue h current e (hsame ▸ he)⟩
    obtain ⟨job, hjob, hopen, hdue⟩ := hdue
    refine ⟨job, hjob, hopen, ?_⟩
    rintro _ ⟨⟩
    exact hdue
  | granted current =>
    rintro ⟨hlapsed, _, ⟨⟩, hmay⟩
    obtain ⟨job, hjob, hopen, hdue⟩ := hl ⟨hlapsed, _, current, hmay⟩
    refine ⟨job, hjob, hopen, ?_⟩
    rintro _ ⟨⟩
    exact (hdue _ current :)
  | claimed => exact hl.modify fun _ _ => ⟨rfl, rfl⟩
  | saved => exact hl.modify fun _ _ => ⟨rfl, rfl⟩
  | later kind nextAt =>
    by_cases hkind : kind = .expire
    · exact fun hsendable => absurd hsendable (hkeep (.inr ⟨nextAt, hkind ▸ rfl⟩))
    · exact hl.modify fun h => absurd h hkind
  | completed kind =>
    by_cases hkind : kind = .expire
    · exact fun hsendable => absurd hsendable (hkeep (.inl (hkind ▸ rfl)))
    · exact hl.modify fun h => absurd h hkind

theorem not_sendable_of_expire (hinv : l.card.Inv lib) {now effectsAt : Int}
    {sourceEventId : String} (hready : ∀ h ∈ l.card.head, h.readyToExpire now) :
    ¬(l.step lib (.commit (.system .expire now sourceEventId) effectsAt)).card.sendable := by
  cases hhead : l.card.head with
  | none =>
    rintro ⟨-, h, hh, -⟩
    simp [step, hhead, Call.apply] at hh
  | some h =>
    obtain ⟨hcreating, hfailed, hdue⟩ := hready h hhead
    simp only [step, hhead, Call.apply, applySystem, stored]
    split_ifs with hstays
    · rintro ⟨-, h', hh', hexpires, hstate⟩
      cases hhead.symm.trans hh'
      obtain ⟨e, he⟩ := Option.isSome_iff_exists.1 hexpires
      have hlive := (hstate.resolve_left hcreating).resolve_left hfailed
      have hout : h.state = .sent ∨ h.state = .paymentReported := hlive.imp_right And.left
      rcases hstays with hno | hno | hverified
      · exact hno ⟨e, he, hdue hout e he⟩
      · exact hno hout
      · rcases hlive with hsent | ⟨-, hopen⟩
        · have hconfirmed := ((hinv.sound h hhead).confirmed hverified).2
          simp [hsent] at hconfirmed
        · exact hopen hverified
    · rintro ⟨hlapsed, -⟩
      cases (Bool.or_eq_false_iff.1 hlapsed).2

end Ledger

def Phase.late : Phase → Bool
  | .finish _ | .giveUp | .forget | .reschedule => true
  | _ => false

namespace Worker

variable {worker : Worker} {answer : Answer} {turn : Turn} {l : Ledger}

/-- The turns of an expire worker that keep the job for a card that needs it: it finds the
community, its transition is not lost and comes when the card can take it, and it only ends the
queueing of the job that it claimed. -/
def inTime (worker : Worker) (l : Ledger) (answer : Answer) : Bool :=
  match worker.kind, worker.phase, answer with
  | .expire, .start, .tenant found => worker.queued != l.jobs.queued .expire || found
  | .expire, .apply _ _, .write ack now => worker.queued != l.jobs.queued .expire ||
      (ack != .lost && l.card.head.all fun h => h.readyToExpire now)
  | .expire, .finish _, .write _ _ | .expire, .forget, .write _ _ | .expire, .reschedule, .write _ _ =>
    worker.queued == l.jobs.queued .expire
  | _, _, _ => true

theorem taken_expire (lib : Libs) (h : LinkHead) {now : Int} {sourceEventId : String} :
    ∃ change, (Call.system .expire now sourceEventId).apply lib (some h) = .ok change := by
  simp only [Call.apply, applySystem, stored]
  split_ifs
  · exact ⟨_, rfl⟩
  · exact ⟨_, rfl⟩

theorem expire_of_fits {phase : Phase} (hfits : fits .expire phase = true)
    (hlate : phase.late = false) : phase = .start ∨ phase = .apply .expire .complete := by
  cases phase with
  | start => exact .inl rfl
  | apply op ending => cases ending <;> cases op <;> first | exact .inr rfl | cases hfits
  | finish | giveUp | forget | reschedule => cases hlate
  | _ => cases hfits

theorem Turned.not_sendable (hturned : Turned lib l.card.head worker answer turn)
    (hinv : l.card.Inv lib) (hfits : Worker.fits worker.kind worker.phase = true)
    (htime : worker.inTime l answer = true) (hkind : worker.kind = .expire)
    (hle : worker.queued ≤ l.jobs.queued .expire)
    (hqueued : worker.queued = (turn.write.elim l (l.step lib)).jobs.queued .expire)
    (hearly : worker.phase.late = false) :
    ∀ phase ∈ turn.phase, phase.late = true →
      ¬(turn.write.elim l (l.step lib)).card.sendable := by
  intro phase hphase hlate
  have hsame : worker.queued = l.jobs.queued .expire := by
    refine hle.antisymm (hqueued.symm ▸ ?_)
    cases turn.write with
    | none => exact le_rfl
    | some write => exact l.queued_le_step lib write .expire
  rcases expire_of_fits (hkind ▸ hfits) hearly with hstart | happly
  · cases hturned with
    | begun =>
      cases hphase
      rw [afterTenant, hkind] at hlate
      cases hlate
    | orphaned => simp [inTime, hkind, hstart, hsame] at htime
    | failed _ fallible => cases (hstart ▸ fallible : Phase.start.fallible = true)
    | applied _ phase => cases (hstart ▸ phase : Phase.start.applies = _)
    | ended => cases hphase
    | read phase | connected phase | disconnected phase | provided phase | sent phase
      | paid phase | saved phase | finished phase | gaveUp phase | gaveUpLost phase | forgot phase
      | rescheduled phase => cases hstart.symm.trans phase
  · cases hturned with
    | failed _ fallible lost =>
      obtain ⟨ack, now, rfl, hlost⟩ := lost .expire .complete (happly ▸ rfl)
      rintro ⟨-, h, hh, -⟩
      obtain ⟨change, htaken⟩ := taken_expire lib h
      rw [hlost change (hh.symm ▸ htaken)] at htime
      simp [inTime, hkind, happly, hsame] at htime
    | @applied op ending change ack now phase =>
      cases (happly ▸ phase : (Phase.apply .expire .complete).applies = _)
      simp only [inTime, hkind, happly, hsame, bne_self_eq_false, Bool.false_or, Bool.and_eq_true,
        Option.all_eq_true, decide_eq_true_eq] at htime
      exact Ledger.not_sendable_of_expire hinv htime.2
    | ended => cases hphase
    | begun phase | orphaned phase | read phase | connected phase | disconnected phase
      | provided phase | sent phase | paid phase | saved phase | finished phase | gaveUp phase
      | gaveUpLost phase | forgot phase | rescheduled phase => cases happly.symm.trans phase

theorem Turned.late (hturned : Turned lib l.card.head worker answer turn) {kind : JobKind}
    (hwrite : turn.write = some (.complete kind) ∨ ∃ nextAt, turn.write = some (.later kind nextAt)) :
    worker.kind = kind ∧ worker.phase.late = true ∧ worker.phase ≠ .giveUp ∧
      ∃ ack now, answer = .write ack now := by
  cases hturned with
  | @finished ending phase ack now _ kept goes =>
    refine ⟨?_, phase ▸ rfl, by simp [phase], ack, now, rfl⟩
    cases ending <;> simpa [Ending.write] using hwrite
  | forgot phase ack now =>
    exact ⟨by simpa using hwrite, phase ▸ rfl, by simp [phase], ack, now, rfl⟩
  | rescheduled phase ack now =>
    exact ⟨by simpa using hwrite, phase ▸ rfl, by simp [phase], ack, now, rfl⟩
  | _ => simp at hwrite

theorem queued_of_inTime {ack : Ack} {now : Int} (hkind : worker.kind = .expire)
    (hlate : worker.phase.late = true) (hends : worker.phase ≠ .giveUp)
    (htime : worker.inTime l (.write ack now) = true) : worker.queued = l.jobs.queued .expire := by
  unfold inTime at htime
  rw [hkind] at htime
  cases hphase : worker.phase with
  | finish | forget | reschedule => simpa [hphase] using htime
  | giveUp => exact absurd hphase hends
  | _ =>
    rw [hphase] at hlate
    cases hlate

end Worker

namespace World

variable {w : World}

/-- The steps that keep the expire job: no mark as sent, no report dismissed after the card
lapsed, and every expire worker in time. -/
def inTime (w : World) : Act → Bool
  | .command action _ _ _ =>
    action.op != .markSent && !(w.ledger.card.lapsed && action.op == .dismissReport)
  | .move n answer _ => (w.workers.lookup n).all fun worker => worker.inTime w.ledger answer
  | _ => true

theorem Writes.op_ne {act : Act} {write : Write} (hwrites : w.Writes lib act write)
    (htime : w.inTime act = true) :
    write.op ≠ some .markSent ∧ (w.ledger.card.lapsed = true → write.op ≠ some .dismissReport) := by
  cases hwrites with
  | outside outside =>
    cases outside with
    | command action =>
      simp only [inTime, Bool.and_eq_true, bne_iff_ne, Bool.not_eq_true', Bool.and_eq_false_iff,
        beq_eq_false_iff_ne] at htime
      refine ⟨fun h => htime.1 (Option.some.inj h), fun hlapsed h => ?_⟩
      exact htime.2.elim (fun h' => by cases h'.symm.trans hlapsed) (· (Option.some.inj h))
    | notice => exact ⟨nofun, nofun⟩
    | grant => exact ⟨nofun, nofun⟩
  | claim => exact ⟨nofun, nofun⟩
  | turned holds turned written =>
    rw [turned.op _ written]
    exact ⟨nofun, nofun⟩

structure Expiring (lib : Libs) (w : World) : Prop where
  fits : w.Fits
  inv : w.ledger.card.Inv lib
  lapsing : w.ledger.Lapsing
  settled : w.Settled Card.sendable .expire Phase.late
  expiring : w.ledger.Expiring

theorem Expiring.step (hw : w.Expiring lib) {act : Act} (htime : w.inTime act = true) :
    (w.step lib act).Expiring lib := by
  have hstepped := w.step_stepped lib act
  have hworker {n : Nat} {worker : Worker} {answer : Answer} {headId : String}
      (hact : act = .move n answer headId) (holds : w.workers.lookup n = some worker) :
      worker.inTime w.ledger answer = true := by
    subst hact
    simpa [inTime, holds] using htime
  refine ⟨hw.fits.step act, ?_, ?_, ?_, ?_⟩
  · exact hstepped.ledger (p := fun l => l.card.Inv lib) hw.inv fun write _ =>
      Ledger.inv_step hw.inv write
  · exact hstepped.ledger hw.lapsing fun write hwrites =>
      hw.lapsing.step (hwrites.op_ne htime).2
  · refine hw.settled.step hstepped rfl (fun write hwrites =>
      Ledger.renews_sendable hw.lapsing (hwrites.op_ne htime).1) ?_
    intro n worker answer turn headId hact holds turned phase hphase hkind hqueued hearly hlate
    exact turned.not_sendable hw.inv (hw.fits n worker holds) (hworker hact holds) hkind
      (hw.settled n worker holds hkind).1 hqueued hearly phase hphase hlate
  · refine hstepped.ledger hw.expiring fun write hwrites =>
      hw.expiring.step hw.lapsing (hwrites.op_ne htime).1 fun hends => ?_
    cases hwrites with
    | outside outside => cases outside <;> simp at hends
    | claim => simp at hends
    | @turned n worker answer turn headId _ holds turned written =>
      have hwrite : turn.write = some (.complete .expire) ∨
          ∃ nextAt, turn.write = some (.later .expire nextAt) := by simpa [written] using hends
      obtain ⟨hkind, hlate, hgives, ack, now, rfl⟩ := turned.late hwrite
      exact (hw.settled n worker holds hkind).2
        (Worker.queued_of_inTime hkind hlate hgives (hworker rfl holds)) hlate

theorem expiring_empty : World.empty.Expiring lib where
  fits n x hx := by cases hx
  inv := Card.inv_blank
  lapsing := ⟨fun _ hh => (Option.not_mem_none _ hh).elim, nofun⟩
  settled n x hx := by cases hx
  expiring := by
    rintro ⟨-, h, hh, -⟩
    cases hh

/-- In a run whose expire workers are all in time, and in which nobody marks a link as sent nor
dismisses a report after the link lapsed, a sent link has an open expire job that is due when the
link expires. -/
theorem run_expiring (lib : Libs) {acts : List Act}
    (htime : Along (World.step lib) (fun w act => w.inTime act = true) .empty acts) :
    ∀ h ∈ (runFrom (World.step lib) .empty acts).head, h.state = .sent → ∀ e ∈ h.expiresAt,
      ∃ job ∈ (runFrom (World.step lib) .empty acts).ledger.jobs.row .expire,
        job.done = false ∧ job.nextAt ≤ e := by
  have hrun := htime.preserves (p := Expiring lib) (fun w act hw htime => hw.step htime)
    expiring_empty
  intro h hh hsent e he
  have hlive : (runFrom (World.step lib) .empty acts).ledger.card.lapsed = false := by
    refine Bool.eq_false_iff.2 fun hlapsed => ?_
    obtain ⟨h', hh', hpast⟩ := hrun.lapsing.past hlapsed
    cases hh.symm.trans hh'
    rw [hsent] at hpast
    cases hpast
  have hmay : h.mayBeSent := ⟨Option.isSome_iff_exists.2 ⟨e, he⟩, .inr (.inr (.inl hsent))⟩
  obtain ⟨job, hjob, hopen, hdue⟩ := hrun.expiring ⟨hlive, h, hh, hmay⟩
  exact ⟨job, hjob, hopen, hdue h hh e he⟩

section Sample

open Card

def delivers (now : Int) : List Act :=
  [.claim 1 .send true now, .move 1 (.tenant true) "", .move 1 (.card true) "",
    .move 1 (.sending ⟨some (some "client"), ⟨some true, fun _ => true, .ok .queued, none,
      some (some "sent")⟩, ⟨true, some 200⟩⟩) "", .move 1 (.write .ok now) (hexId 'f')]

def sentByHand : List Act :=
  calling ++ answers ++ [owner (ownerAction .markSent 'e' 1) 60 'f']

def expiresFirst : List Act :=
  calling ++ answers ++ [.claim 2 .expire true 86400, .move 2 (.tenant true) "",
    .move 2 (.write .ok 86400) "", .move 2 (.write .ok 86400) ""] ++ delivers 86410

end Sample

theorem run_expiring_delivers :
    Along (World.step Card.plainLibs) (fun w act => w.inTime act = true) .empty
        (calling ++ answers ++ delivers 60) ∧
      ∃ job ∈ (runFrom (World.step Card.plainLibs) .empty
          (calling ++ answers ++ delivers 60)).ledger.jobs.row .expire,
        job.done = false ∧ job.nextAt ≤ 86400 := by
  have htime : Along (World.step Card.plainLibs) (fun w act => w.inTime act = true) .empty
      (calling ++ answers ++ delivers 60) := by decide +kernel
  have hsent : ∃ h ∈ (runFrom (World.step Card.plainLibs) .empty
      (calling ++ answers ++ delivers 60)).head, h.state = .sent ∧ h.expiresAt = some 86400 := by
    decide +kernel
  obtain ⟨h, hh, hstate, hexpires⟩ := hsent
  exact ⟨htime, run_expiring Card.plainLibs htime h hh hstate 86400 hexpires⟩

theorem sent_without_expiry :
    ((∃ h ∈ (after sentByHand).head, h.state = .sent ∧ h.expiresAt = some 86400) ∧
      ¬(after sentByHand).ledger.jobs.isOpen .expire) ∧
    ((∃ h ∈ (after expiresFirst).head, h.state = .sent ∧ h.expiresAt = some 86400) ∧
      ¬(after expiresFirst).ledger.jobs.isOpen .expire) := by
  decide +kernel

end World

end Colony.Money
