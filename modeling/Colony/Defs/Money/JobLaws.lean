import Colony.Defs.Money.Jobs

namespace Colony.Money

open Colony.Core Colony.Data

variable {lib : Libs} {call : Call} {h head moved : LinkHead} {effects : List LinkEffect}
  {approvals : List Approved} {kind : JobKind} {e : LinkEffect} {t : JobTable}
  {actorPubkey : String} {now : Int}

def LinkEffect.opens (e : LinkEffect) (head : LinkHead) : JobKind → Bool
  | .create => e == .queueCreate
  | .send => e == .queueSend
  | .evidence => e.isEvidence
  | .expire => (e == .queueCreate || e == .wakeBrowser) && head.expiresAt.isSome
  | .grant => e == .wakeBrowser && head.browserGrant.isSome

namespace JobTable

def isOpen (t : JobTable) (kind : JobKind) : Prop := ∃ job ∈ t.row kind, job.done = false

instance (t : JobTable) (kind : JobKind) : Decidable (t.isOpen kind) :=
  inferInstanceAs (Decidable (∃ job ∈ t.row kind, _))

@[simp] theorem modify_queued (t : JobTable) (kind : JobKind) (f : Job → Job) :
    (t.modify kind f).queued = t.queued := rfl

theorem modify_row (t : JobTable) (kind kind' : JobKind) (f : Job → Job) :
    (t.modify kind f).row kind' = if kind' = kind then (t.row kind).map f else t.row kind' :=
  Function.update_apply ..

theorem isOpen_modify {f : Job → Job} (hf : ∀ job, (f job).done = job.done) (kind' : JobKind) :
    (t.modify kind f).isOpen kind' ↔ t.isOpen kind' := by
  unfold isOpen
  rw [modify_row]
  split
  · next heq => simp [heq, hf]
  · rfl

theorem isOpen_complete {kind' : JobKind} (hne : kind' ≠ kind) :
    (t.complete kind).isOpen kind' ↔ t.isOpen kind' := by
  rw [isOpen, complete, modify_row, if_neg hne, isOpen]

theorem claimable_eq_some {due : Bool} {job : Job} (hjob : t.claimable kind due now = some job) :
    t.row kind = some job ∧ job.done = false := by
  obtain ⟨hrow, hopen⟩ := Option.filter_eq_some_iff.1 hjob
  rw [Bool.and_eq_true, Bool.and_eq_true, Bool.not_eq_true'] at hopen
  exact ⟨hrow, hopen.1.1⟩

theorem enqueue_row (t : JobTable) (kind kind' : JobKind) (payload : Payload) (nextAt : Int) :
    (t.enqueue kind payload nextAt).row kind' =
      if kind' = kind then some ⟨payload, none, 0, nextAt, none, false⟩ else t.row kind' :=
  Function.update_apply ..

theorem enqueue_queued (t : JobTable) (kind kind' : JobKind) (payload : Payload) (nextAt : Int) :
    (t.enqueue kind payload nextAt).queued kind' =
      if kind' = kind then t.queued kind + 1 else t.queued kind' :=
  Function.update_apply ..

def Fresh (head : LinkHead) (kind : JobKind) (job : Job) : Prop :=
  job.done = false ∧ job.result = none ∧ (kind = .expire → head.expiresAt = some job.nextAt)

theorem applyEffect_fresh (hopens : e.opens head kind = true) :
    ∃ job ∈ (applyEffect head actorPubkey now t e).row kind, Fresh head kind job := by
  cases hexpires : head.expiresAt <;> cases hgrant : head.browserGrant <;> cases kind <;> cases e <;>
    simp [LinkEffect.opens, LinkEffect.isEvidence, hexpires, hgrant] at hopens <;>
    simp [applyEffect, enqueueExpiry, hexpires, hgrant, enqueue_row, Fresh]

theorem applyEffect_row (hopens : e.opens head kind = false) (hkeep : e ≠ .cancelJobs) :
    (applyEffect head actorPubkey now t e).row kind = t.row kind := by
  cases hexpires : head.expiresAt <;> cases hgrant : head.browserGrant <;> cases kind <;> cases e <;>
    simp [LinkEffect.opens, LinkEffect.isEvidence, hexpires, hgrant] at hopens hkeep <;>
    simp [applyEffect, enqueueExpiry, hexpires, hgrant, enqueue_row]

theorem applyEffect_queued :
    (applyEffect head actorPubkey now t e).queued kind =
      t.queued kind + if e.opens head kind then 1 else 0 := by
  cases hexpires : head.expiresAt <;> cases hgrant : head.browserGrant <;> cases kind <;> cases e <;>
    simp [LinkEffect.opens, LinkEffect.isEvidence, applyEffect, enqueueExpiry, hexpires, hgrant,
      enqueue_queued, cancelAll]

@[simp] theorem applyEffects_nil : t.applyEffects head actorPubkey now [] = t := rfl

@[simp] theorem applyEffects_cons : t.applyEffects head actorPubkey now (e :: effects) =
    (applyEffect head actorPubkey now t e).applyEffects head actorPubkey now effects := rfl

theorem applyEffects_holds {p : Job → Prop} (hfresh : ∀ job, Fresh head kind job → p job)
    (hkeep : LinkEffect.cancelJobs ∉ effects)
    (hrow : (∃ job ∈ t.row kind, p job) ∨ ∃ e ∈ effects, e.opens head kind = true) :
    ∃ job ∈ (t.applyEffects head actorPubkey now effects).row kind, p job := by
  induction effects generalizing t with
  | nil => exact hrow.resolve_right fun ⟨_, he, _⟩ => nomatch he
  | cons e effects ih =>
    rw [List.mem_cons, not_or] at hkeep
    refine ih hkeep.2 ?_
    cases hopens : e.opens head kind with
    | true =>
      obtain ⟨job, hjob, hf⟩ := applyEffect_fresh hopens
      exact .inl ⟨job, hjob, hfresh job hf⟩
    | false =>
      rw [applyEffect_row hopens (Ne.symm hkeep.1)]
      refine hrow.imp_right fun ⟨e', he', ho⟩ => ⟨e', (List.mem_cons.1 he').resolve_left ?_, ho⟩
      rintro rfl
      cases hopens.symm.trans ho

theorem fresh_applyEffects (hkeep : LinkEffect.cancelJobs ∉ effects)
    (hopens : ∃ e ∈ effects, e.opens head kind = true) :
    ∀ job ∈ (t.applyEffects head actorPubkey now effects).row kind, Fresh head kind job := by
  intro job hjob
  obtain ⟨job', hjob', hf⟩ := applyEffects_holds (t := t) (fun _ hf => hf) hkeep (.inr hopens)
  cases hjob'.symm.trans hjob
  exact hf

theorem isOpen_applyEffects (hkeep : LinkEffect.cancelJobs ∉ effects)
    (hrow : t.isOpen kind ∨ ∃ e ∈ effects, e.opens head kind = true) :
    (t.applyEffects head actorPubkey now effects).isOpen kind :=
  applyEffects_holds (fun _ hf => hf.1) hkeep hrow

theorem not_isOpen_cancelAll : ¬t.cancelAll.isOpen kind := by
  rintro ⟨job, hjob, hdone⟩
  obtain ⟨job', -, rfl⟩ := Option.map_eq_some_iff.1 hjob
  split at hdone
  · next h => cases h.symm.trans hdone
  · cases hdone

theorem applyEffects_row (hshut : ∀ e ∈ effects, e.opens head kind = false) :
    (LinkEffect.cancelJobs ∉ effects ∧
        (t.applyEffects head actorPubkey now effects).row kind = t.row kind) ∨
      (LinkEffect.cancelJobs ∈ effects ∧
        ¬(t.applyEffects head actorPubkey now effects).isOpen kind) := by
  induction effects generalizing t with
  | nil => exact .inl ⟨List.not_mem_nil, rfl⟩
  | cons e effects ih =>
    have hopens := hshut e List.mem_cons_self
    rcases ih (t := applyEffect head actorPubkey now t e)
        (fun e he => hshut e (List.mem_cons_of_mem _ he)) with ⟨hkeep, hrow⟩ | ⟨hcancel, hclosed⟩
    · by_cases he : e = .cancelJobs
      · refine .inr ⟨he ▸ List.mem_cons_self, fun hopen => ?_⟩
        rw [applyEffects_cons, isOpen, hrow, he] at hopen
        exact not_isOpen_cancelAll hopen
      · refine .inl ⟨fun hmem => hkeep ((List.mem_cons.1 hmem).resolve_left (Ne.symm he)), ?_⟩
        rw [applyEffects_cons, hrow, applyEffect_row hopens he]
    · exact .inr ⟨List.mem_cons_of_mem _ hcancel, hclosed⟩

theorem applyEffects_queued :
    (t.applyEffects head actorPubkey now effects).queued kind =
      t.queued kind + effects.countP fun e => e.opens head kind := by
  induction effects generalizing t with
  | nil => rfl
  | cons e effects ih =>
    rw [applyEffects_cons, ih, applyEffect_queued, List.countP_cons]
    omega

theorem queued_lt_applyEffects (hopens : ∃ e ∈ effects, e.opens head kind = true) :
    t.queued kind < (t.applyEffects head actorPubkey now effects).queued kind := by
  rw [applyEffects_queued]
  exact Nat.lt_add_of_pos_right (List.countP_pos_iff.2 hopens)

end JobTable

section Moves

theorem Begins.not_cancelJobs {grant : Option BrowserGrant} (hb : Begins h grant effects) :
    LinkEffect.cancelJobs ∉ effects := by
  rcases hb.effects_eq with rfl | rfl <;> simp

theorem Moved.confirmed (hmoved : Moved lib call h moved effects)
    (hverified : moved.paymentIs .verified) :
    h.paymentIs .verified ∨
      (LinkEffect.cancelJobs ∉ effects ∧ ∃ e ∈ effects, e.opens moved .evidence = true) := by
  cases hmoved with
  | @edited _ _ _ head _ op editable redrafted =>
    rw [LinkHead.paymentIs, head.reopened_payment, redrafted.payment] at hverified
    exact .inl hverified
  | reported counts unconfirmed payment state =>
    obtain ⟨_, ⟨⟩, hstate⟩ := hverified
    cases state.symm.trans hstate
  | verified =>
    refine .inr ⟨fun hcancel => ?_, _, List.mem_singleton_self _, rfl⟩
    cases List.mem_singleton.1 hcancel
  | dismissed =>
    obtain ⟨_, ⟨⟩, -⟩ := hverified
  | recorded unpaid verified => exact .inl verified
  | _ => exact .inl hverified

theorem Moved.unconfirmed_of_cancelJobs (hs : h.Sound lib approvals)
    (hmoved : Moved lib call h moved effects) (hcancel : LinkEffect.cancelJobs ∈ effects)
    (hop : call.op ≠ some .cancel) : ¬h.paymentIs .verified := by
  intro hverified
  have hstate := (hs.confirmed hverified).2
  cases hmoved with
  | cancelled op => exact hop (congrArg some op)
  | edited op editable => exact (hs.unlinked_of_editable editable).1 (hs.confirmed hverified).1
  | rejected op waiting => rcases waiting with hd | hd <;> simp [hd] at hstate
  | mismatched creating => simp [creating] at hstate
  | failed creating => simp [creating] at hstate
  | revoked op failed => simp [failed] at hstate
  | markedSent op unsent => rcases unsent with hd | hd <;> simp [hd] at hstate
  | approved op owner waiting => simp [waiting] at hstate
  | retried op failed => simp [failed] at hstate
  | verified => cases List.mem_singleton.1 hcancel
  | linked => cases List.mem_singleton.1 hcancel
  | resent => cases List.mem_singleton.1 hcancel
  | _ => exact absurd hcancel List.not_mem_nil

end Moves

namespace Ledger

inductive Changed (lib : Libs) (l : Ledger) : Write → Ledger → Prop
  | same (write : Write) : Changed lib l write l
  | drafted {call : Call} {effectsAt : Int} {head : LinkHead} {effects : List LinkEffect}
      (blank : l.card.head = none) (drafted : Drafted head effects) :
    Changed lib l (.commit call effectsAt) (l.store call effectsAt head effects)
  | moved {call : Call} {effectsAt : Int} {h head : LinkHead} {effects : List LinkEffect}
      (current : l.card.head = some h) (moves : Moves lib call h head effects) :
    Changed lib l (.commit call effectsAt) (l.store call effectsAt head effects)
  | granted {host kind : String} {refusal : Option (String × String)} {now : Int} {h : LinkHead}
      (current : l.card.head = some h) (browser : h.route = .browser) (grant : BrowserGrant)
      (sourceEventId : String) :
    Changed lib l (.grant host kind refusal now)
      { l with card := { l.card with
        head := some ({ h with browserGrant := some grant }.touch now sourceEventId) } }
  | claimed (kind : JobKind) (due : Bool) (now : Int) :
    Changed lib l (.claim kind due now) { l with jobs := l.jobs.modify kind fun job =>
      { job with leaseUntil := some (now + LEASE_SECS), attempts := job.attempts + 1 } }
  | saved (kind : JobKind) (result : Created) :
    Changed lib l (.save kind result) { l with jobs := l.jobs.save kind result }
  | later (kind : JobKind) (nextAt : Int) :
    Changed lib l (.later kind nextAt) { l with jobs := l.jobs.later kind nextAt }
  | completed (kind : JobKind) :
    Changed lib l (.complete kind)
      { l with jobs := l.jobs.complete kind, completed := l.completed ++ [kind] }

theorem useBrowserGrant_ok {host kind : String} {refusal : Option (String × String)}
    (hok : useBrowserGrant lib h host kind refusal now = .ok head) :
    h.route = .browser ∧ ∃ grant sourceEventId,
      head = { h with browserGrant := some grant }.touch now sourceEventId := by
  simp only [useBrowserGrant, bind_eq_ok, ensure_eq_ok, exists_const, orRefuse_eq_ok] at hok
  obtain ⟨⟨-, hroute, -⟩, grant, -, -, -, -, -, hok⟩ := hok
  cases refusal with
  | some refusal => cases hok
  | none =>
    cases hok
    exact ⟨hroute, _, _, rfl⟩

theorem step_changed (lib : Libs) (l : Ledger) (write : Write) : Changed lib l write (l.step lib write) := by
  cases write with
  | commit call effectsAt =>
    dsimp only [step]
    split
    · next head effects happly =>
      rcases Call.apply_changed happly with ⟨hnone, hdrafted⟩ | ⟨h, hh, hmoves⟩
      · exact .drafted hnone hdrafted
      · exact .moved hh hmoves
    · exact .same _
    · exact .same _
  | grant host kind refusal now =>
    dsimp only [step]
    split
    · exact .same _
    · next h hh =>
      split
      · next head hok =>
        obtain ⟨hroute, grant, sourceEventId, rfl⟩ := useBrowserGrant_ok hok
        exact .granted hh hroute grant sourceEventId
      · exact .same _
  | claim kind due now =>
    dsimp only [step, JobTable.claim]
    split
    · exact .claimed kind due now
    · exact .same _
  | save kind result => exact .saved kind result
  | complete kind => exact .completed kind
  | later kind nextAt => exact .later kind nextAt

theorem card_commit (l : Ledger) (call : Call) (effectsAt : Int) :
    (l.step lib (.commit call effectsAt)).card = l.card.step lib call := by
  cases happly : call.apply lib l.card.head with
  | error => simp only [step, Card.step, happly]
  | ok change => cases change <;> simp only [step, Card.step, happly, store]

theorem inv_step {l : Ledger} (hinv : l.card.Inv lib) (write : Write) :
    (l.step lib write).card.Inv lib := by
  cases write with
  | commit call effectsAt =>
    rw [card_commit]
    exact hinv.step call
  | grant host kind refusal now =>
    have hchanged := step_changed lib l (.grant host kind refusal now)
    generalize l.step lib (.grant host kind refusal now) = l' at hchanged
    cases hchanged with
    | same => exact hinv
    | granted current browser grant sourceEventId =>
      exact hinv.granted current grant now sourceEventId
  | claim | save | complete | later => exact hinv

/-- A confirmed payment that is not yet recorded has an open job, unless an attempt of the job
itself ended it. -/
def Recording (l : Ledger) : Prop :=
  ∀ h ∈ l.card.head, h.paymentIs .verified → h.state ≠ .paid →
    l.jobs.isOpen .evidence ∨ .evidence ∈ l.completed

def cancelsConfirmed (l : Ledger) : Write → Bool
  | .commit call _ => call.op == some .cancel && l.card.head.any fun h => h.paymentIs .verified
  | _ => false

theorem Recording.step {l : Ledger} (hl : l.Recording) (hinv : l.card.Inv lib) (write : Write)
    (hkeep : l.cancelsConfirmed write = false) : (l.step lib write).Recording := by
  have hchanged := step_changed lib l write
  generalize l.step lib write = l' at hchanged
  cases hchanged with
  | same => exact hl
  | drafted blank drafted =>
    rintro _ ⟨⟩ ⟨payment, hpayment, -⟩
    cases drafted.payment.symm.trans hpayment
  | @moved call effectsAt h head effects current moves =>
    obtain ⟨moved, now, sourceEventId, hmoved, rfl⟩ := moves
    rintro _ ⟨⟩ hverified -
    rcases hmoved.confirmed hverified with hconfirmed | ⟨hcancel, hopens⟩
    · refine (hl h current hconfirmed hmoved.unpaid).imp_left fun hopen => ?_
      refine JobTable.isOpen_applyEffects (fun hcancel => ?_) (.inl hopen)
      refine hmoved.unconfirmed_of_cancelJobs (hinv.sound h current) hcancel (fun hop => ?_) hconfirmed
      simp [cancelsConfirmed, hop, current, hconfirmed] at hkeep
    · exact .inl (JobTable.isOpen_applyEffects hcancel (.inr hopens))
  | granted current =>
    rintro _ ⟨⟩ hverified
    exact (hl _ current hverified :)
  | claimed | saved | later =>
    intro h hh hverified hstate
    refine (hl h hh hverified hstate).imp_left fun hopen => ?_
    exact (JobTable.isOpen_modify (by exact fun _ => rfl) _).2 hopen
  | completed kind =>
    intro h hh hverified hstate
    by_cases hkind : .evidence = kind
    · exact .inr (hkind ▸ List.mem_append_right _ (List.mem_singleton_self _))
    · refine (hl h hh hverified hstate).imp (JobTable.isOpen_complete hkind).2 ?_
      exact List.mem_append_left _

/-- No job of a confirmed payment is lost in a run in which no confirmed card is cancelled. -/
theorem run_recording (lib : Libs) {writes : List Write}
    (hkeep : Along (Ledger.step lib) (fun l write => l.cancelsConfirmed write = false) .empty writes) :
    (runFrom (Ledger.step lib) .empty writes).Recording := by
  refine (hkeep.preserves (p := fun l => l.card.Inv lib ∧ l.Recording)
    (fun l write hl hkeep => ⟨inv_step hl.1 write, hl.2.step hl.1 write hkeep⟩) ⟨?_, ?_⟩).2
  · exact Card.inv_blank
  · exact fun h hh => (Option.not_mem_none h hh).elim

open Card in
def confirms : List Write :=
  (isSent ++ [gives .confirmPayment 30]).map (.commit · 0)

theorem run_recording_confirms :
    Along (Ledger.step Card.plainLibs) (fun l write => l.cancelsConfirmed write = false) .empty
        confirms ∧
      (runFrom (Ledger.step Card.plainLibs) .empty confirms).jobs.isOpen .evidence := by
  have hkeep : Along (Ledger.step Card.plainLibs) (fun l write => l.cancelsConfirmed write = false)
      .empty confirms := by decide +kernel
  have hstate : ∃ h ∈ (runFrom (Ledger.step Card.plainLibs) .empty confirms).card.head,
      h.paymentIs .verified ∧ h.state ≠ .paid ∧
        .evidence ∉ (runFrom (Ledger.step Card.plainLibs) .empty confirms).completed := by
    decide +kernel
  obtain ⟨h, hh, hverified, hunpaid, hcompleted⟩ := hstate
  exact ⟨hkeep, (run_recording Card.plainLibs hkeep h hh hverified hunpaid).resolve_right hcompleted⟩

open Card in
theorem confirmed_then_cancelled :
    let l := runFrom (Ledger.step plainLibs) .empty (confirms ++ [.commit (gives .cancel 40) 40])
    (∃ h ∈ l.card.head, h.paymentIs .verified ∧ h.state = .cancelled) ∧
      ¬l.jobs.isOpen .evidence ∧ l.completed = [] ∧
      (gives .confirmPayment 50).apply plainLibs l.card.head =
        .ok (.unchanged "this payment is already confirmed") := by
  decide +kernel

end Ledger

end Colony.Money
