import Colony.Defs.Data.Run
import Colony.Defs.Money.LinkLaws

namespace Colony.Money

open Colony.Core Colony.Data

structure Approved where
  actor : LinkActor
  facts : ApprovalFacts
  approval : Approval

structure Card where
  head : Option LinkHead
  -- Every effect so far.
  emitted : List LinkEffect
  approvals : List Approved
  -- The card has been cancelled or expired.
  lapsed : Bool

def LinkState.lapses : LinkState → Bool
  | .cancelled | .expired => true
  | _ => false

def Call.approved (call : Call) (head : LinkHead) : Option Approved :=
  match call with
  | .act action ctx =>
    if action.op = .approve then
      match action.facts, head.approval with
      | some facts, some approval => some ⟨ctx.actor, facts, approval⟩
      | _, _ => none
    else none
  | .system _ _ _ => none

namespace Card

def blank : Card := ⟨none, [], [], false⟩

def store (card : Card) (call : Call) (head : LinkHead) (effects : List LinkEffect) : Card where
  head := some head
  emitted := card.emitted ++ effects
  approvals := card.approvals ++ (call.approved head).toList
  lapsed := card.lapsed || head.state.lapses

def step (lib : Libs) (card : Card) (call : Call) : Card :=
  match call.apply lib card.head with
  | .ok (.changed head effects) => card.store call head effects
  | .ok (.unchanged _) | .error _ => card

end Card

variable {lib : Libs} {call : Call} {card : Card} {h head moved : LinkHead}
  {effects : List LinkEffect} {approvals : List Approved}

theorem Card.step_cases (card : Card) (call : Call) :
    card.step lib call = card ∨ ∃ head effects,
      ((card.head = none ∧ Drafted head effects) ∨
        ∃ h, card.head = some h ∧ Moves lib call h head effects) ∧
      card.step lib call = card.store call head effects := by
  unfold step
  split
  · next head effects happly => exact .inr ⟨head, effects, Call.apply_changed happly, rfl⟩
  · exact .inl rfl
  · exact .inl rfl

section Approval

variable (lib approvals) in
/-- The approval on the card was given for the facts on the card, by an owner or admin. -/
def LinkHead.Backed (h : LinkHead) : Prop :=
  ∃ a ∈ approvals, h.approval = some a.approval ∧ a.actor.role = .ownerAdmin ∧
    a.approval.approvedBy = a.actor.pubkey ∧ a.approval.digest = h.approvalDigest lib ∧
    a.facts = h.facts

theorem LinkHead.Backed.congr (hb : h.Backed lib approvals) (happroval : head.approval = h.approval)
    (hdigest : head.digestFacts = h.digestFacts) (hfacts : head.facts = h.facts) :
    head.Backed lib approvals := by
  obtain ⟨a, ha, h₁, h₂, h₃, h₄, h₅⟩ := hb
  refine ⟨a, ha, happroval.trans h₁, h₂, h₃, h₄.trans ?_, h₅.trans hfacts.symm⟩
  rw [LinkHead.approvalDigest, LinkHead.approvalDigest, hdigest]

theorem LinkHead.Backed.append (hb : h.Backed lib approvals) (more : List Approved) :
    h.Backed lib (approvals ++ more) := by
  obtain ⟨a, ha, hrest⟩ := hb
  exact ⟨a, List.mem_append_left _ ha, hrest⟩

theorem LinkHead.Backed.valid (hb : h.Backed lib approvals) : h.approvalIsValid lib := by
  obtain ⟨a, -, happroval, -, -, hdigest, -⟩ := hb
  exact ⟨a.approval, happroval, hdigest⟩

variable (lib approvals) in
/-- What holds of every card: the states that need an approval or a link have one, and a
confirmed payment belongs to a card with a link. -/
structure LinkHead.Sound (h : LinkHead) : Prop where
  backed : h.linkExists ∨ h.state = .creatingLink ∨ h.state = .failed → h.Backed lib approvals
  shown : ∀ link ∈ h.link, link.shownAmountMinor = h.amountMinor ∧ link.shownCurrency = h.currency
  unlinked : h.state = .draft ∨ h.state = .needsYou → ¬h.linkExists
  linked : h.state = .sent ∨ h.state = .paymentReported ∨ h.state = .expired → h.linkExists
  confirmed : h.paymentIs .verified →
    h.linkExists ∧ (h.state = .paymentReported ∨ h.state = .paid ∨ h.state = .cancelled)
  paid : h.state = .paid → h.paymentIs .verified

namespace LinkHead

theorem link_eq_none (hnone : ¬h.linkExists) : h.link = none := by
  unfold linkExists at hnone
  simpa using hnone

theorem not_linkExists (hnone : h.link = none) : ¬h.linkExists := by
  unfold linkExists
  rw [hnone]
  exact Bool.noConfusion

theorem sound_of_idle (hlink : ¬head.linkExists) (hpayment : ¬head.paymentIs .verified)
    (hstate : head.state = .draft ∨ head.state = .needsYou ∨ head.state = .cancelled) :
    head.Sound lib approvals where
  backed := by
    rintro (hl | hs | hs)
    · exact absurd hl hlink
    all_goals rw [hs] at hstate; simp at hstate
  shown link hl := absurd (link_eq_none hlink ▸ hl) (Option.not_mem_none link)
  unlinked _ := hlink
  linked hs := by rcases hs with hs | hs | hs <;> rw [hs] at hstate <;> simp at hstate
  confirmed hverified := absurd hverified hpayment
  paid hs := by rw [hs] at hstate; simp at hstate

namespace Sound

theorem keep (hs : h.Sound lib approvals)
    (hlive : h.linkExists ∨ h.state = .creatingLink ∨ h.state = .failed)
    (happroval : head.approval = h.approval) (hdigest : head.digestFacts = h.digestFacts)
    (hfacts : head.facts = h.facts) (hlink : head.link = h.link)
    (hstate : ¬(head.state = .draft ∨ head.state = .needsYou))
    (hlinked : head.state = .sent ∨ head.state = .paymentReported ∨ head.state = .expired →
      h.linkExists)
    (hconfirmed : head.paymentIs .verified →
      h.linkExists ∧ (head.state = .paymentReported ∨ head.state = .paid ∨ head.state = .cancelled))
    (hpaid : head.state = .paid → head.paymentIs .verified) : head.Sound lib approvals := by
  have hexists : head.linkExists ↔ h.linkExists := by rw [linkExists, linkExists, hlink]
  have hamount : head.amountMinor = h.amountMinor := congrArg ApprovalFacts.amountMinor hfacts
  have hcurrency : head.currency = h.currency := congrArg ApprovalFacts.currency hfacts
  refine ⟨fun _ => (hs.backed hlive).congr happroval hdigest hfacts, fun link hl => ?_,
    fun hd => absurd hd hstate, fun hd => hexists.2 (hlinked hd), fun hv => ?_, hpaid⟩
  · rw [hamount, hcurrency]
    exact hs.shown link (hlink ▸ hl)
  · exact ⟨hexists.2 (hconfirmed hv).1, (hconfirmed hv).2⟩

theorem not_verified (hs : h.Sound lib approvals) (hlink : ¬h.linkExists) :
    ¬h.paymentIs .verified :=
  fun hv => hlink (hs.confirmed hv).1

theorem append (hs : h.Sound lib approvals) (more : List Approved) :
    h.Sound lib (approvals ++ more) :=
  { hs with backed := fun hlive => (hs.backed hlive).append more }

theorem touch (hs : h.Sound lib approvals) (now : Int) (sourceEventId : String) :
    (h.touch now sourceEventId).Sound lib approvals :=
  ⟨fun hlive => (hs.backed hlive).congr rfl rfl rfl, hs.shown, hs.unlinked, hs.linked, hs.confirmed,
    hs.paid⟩

end Sound

end LinkHead

theorem Drafted.sound (hd : Drafted head effects) : head.Sound lib approvals := by
  refine LinkHead.sound_of_idle (LinkHead.not_linkExists hd.link) ?_ ?_
  · rintro ⟨payment, hpayment, -⟩
    cases hd.payment.symm.trans hpayment
  · exact hd.state.elim .inl fun hs => .inr (.inl hs)

theorem LinkHead.reopened_state (h : LinkHead) :
    h.reopened.1.state = .needsYou ∨
      (h.reopened.1.state = h.state ∧ h.state ≠ .creatingLink ∧ h.state ≠ .failed) := by
  unfold reopened
  split_ifs with hvoid hfailed
  · exact .inl rfl
  · exact .inl rfl
  · exact .inr ⟨rfl, fun hs => hvoid (.inr hs), hfailed⟩

theorem LinkHead.reopened_link (h : LinkHead) : h.reopened.1.link = h.link := by
  unfold reopened
  split_ifs <;> rfl

theorem LinkHead.reopened_payment (h : LinkHead) : h.reopened.1.payment = h.payment := by
  unfold reopened
  split_ifs <;> rfl

theorem LinkHead.Sound.unlinked_of_editable (hs : h.Sound lib approvals) (he : h.editable = true) :
    ¬h.linkExists ∧ (h.state = .draft ∨ h.state = .needsYou ∨ h.state = .creatingLink ∨
      h.state = .failed) := by
  unfold editable at he
  cases hstate : h.state <;> rw [hstate] at he
  case draft => exact ⟨hs.unlinked (.inl hstate), .inl rfl⟩
  case needsYou => exact ⟨hs.unlinked (.inr hstate), .inr (.inl rfl)⟩
  case creatingLink => exact ⟨by simpa using he, .inr (.inr (.inl rfl))⟩
  case failed => exact ⟨by simpa using he, .inr (.inr (.inr rfl))⟩
  all_goals cases he

theorem LinkHead.Sound.approved (hs : h.Sound lib approvals) (waiting : h.state = .needsYou)
    {approval : Approval} {a : Approved} (ha : a.approval = approval)
    (happroval : head.approval = some approval) (howner : a.actor.role = .ownerAdmin)
    (hby : approval.approvedBy = a.actor.pubkey) (hdigest : approval.digest = head.approvalDigest lib)
    (hfacts : a.facts = head.facts) (hlink : head.link = h.link) (hpayment : head.payment = h.payment)
    (hstate : head.state = .creatingLink) (hmem : a ∈ approvals) : head.Sound lib approvals := by
  subst ha
  have hunlinked : ¬head.linkExists := by
    rw [linkExists, hlink]
    exact hs.unlinked (.inr waiting)
  have hopen : ¬head.paymentIs .verified := by
    rw [paymentIs, hpayment]
    exact hs.not_verified (hs.unlinked (.inr waiting))
  refine ⟨fun _ => ⟨a, hmem, happroval, howner, hby, hdigest, hfacts⟩, fun link hl => ?_,
    fun hd => hunlinked, fun hd => ?_, fun hv => absurd hv hopen, fun hd => ?_⟩
  · exact absurd (link_eq_none hunlinked ▸ hl) (Option.not_mem_none link)
  · rw [hstate] at hd
    simp at hd
  · cases hstate.symm.trans hd

theorem LinkHead.Sound.edited (hs : h.Sound lib approvals) (he : h.editable = true)
    (hred : Redrafted h head effects) : head.reopened.1.Sound lib approvals := by
  obtain ⟨hunlinked, hstate⟩ := hs.unlinked_of_editable he
  refine sound_of_idle ?_ ?_ ?_
  · rw [linkExists, reopened_link, hred.link]
    exact hunlinked
  · rw [paymentIs, reopened_payment, hred.payment]
    exact hs.not_verified hunlinked
  · rcases head.reopened_state with hd | ⟨hd, hcreating, hfailed⟩
    · exact .inr (.inl hd)
    · rw [hd]
      rw [hred.state] at hcreating hfailed ⊢
      rcases hstate with hd | hd | hd | hd
      · exact .inl hd
      · exact .inr (.inl hd)
      · exact absurd hd hcreating
      · exact absurd hd hfailed

theorem LinkHead.Sound.move (hs : h.Sound lib approvals) (hmoved : Moved lib call h moved effects) :
    moved.Sound lib (approvals ++ (call.approved moved).toList) := by
  have idle (hlink : ¬h.linkExists) := hs.not_verified hlink
  cases hmoved with
  | @approved action ctx _ _ op owner waiting facts headId grant begins =>
    refine (hs.append _).approved (a := ⟨ctx.actor, h.facts, _⟩) waiting rfl rfl owner rfl rfl rfl
      rfl rfl rfl (List.mem_append_right _ ?_)
    rw [Call.approved, if_pos op, facts]
    exact List.mem_singleton_self _
  | edited op editable redrafted => exact (hs.edited editable redrafted).append _
  | submitted op draft =>
    have hunlinked := hs.unlinked (.inl draft)
    refine Sound.append ?_ _
    exact sound_of_idle hunlinked (idle hunlinked) (.inr (.inl rfl))
  | rejected op waiting reason =>
    have hunlinked := hs.unlinked waiting
    refine Sound.append ?_ _
    exact sound_of_idle hunlinked (idle hunlinked) (.inr (.inr rfl))
  | cancelled op live reason =>
    by_cases hlink : h.linkExists
    · refine Sound.append ?_ _
      exact hs.keep (.inl hlink) rfl rfl rfl rfl (by simp) (by simp) (fun _ => ⟨hlink, by simp⟩)
        (by simp)
    · refine Sound.append ?_ _
      exact sound_of_idle hlink (idle hlink) (.inr (.inr rfl))
  | linked creating unlinked valid link shown delivery =>
    refine Sound.append (?_ : Sound lib approvals _) _
    refine ⟨fun _ => (hs.backed (.inr (.inl creating))).congr rfl rfl rfl, ?_, ?_, ?_, ?_, ?_⟩
    · rintro _ ⟨⟩
      exact shown
    · simp [creating]
    · simp [creating]
    · exact fun hv => absurd hv (idle unlinked)
    · simp [creating]
  | mismatched creating unlinked failure =>
    refine Sound.append ?_ _
    exact sound_of_idle unlinked (idle unlinked) (.inr (.inl rfl))
  | failed creating failure delivery grant left =>
    refine Sound.append ?_ _
    refine hs.keep (.inr (.inl creating)) rfl rfl rfl rfl (by simp) (by simp) (fun hv => ?_)
      (by simp)
    have := (hs.confirmed hv).2
    simp [creating] at this
  | reported counts unconfirmed payment state =>
    have hlink : h.linkExists := counts.elim (fun hd => hs.linked (.inl hd)) And.left
    refine Sound.append ?_ _
    refine hs.keep (.inl hlink) rfl rfl rfl rfl (by simp) (fun _ => hlink) (fun hv => ?_)
      (by simp)
    obtain ⟨_, ⟨⟩, hv⟩ := hv
    cases state.symm.trans hv
  | verified link counts unconfirmed source reference paidAt noticeId =>
    refine Sound.append ?_ _
    exact hs.keep (.inl link) rfl rfl rfl rfl (by simp [verifiedBy]) (fun _ => link)
      (fun _ => ⟨link, .inl rfl⟩) (by simp [verifiedBy])
  | dismissed op reported unconfirmed =>
    have hlink := hs.linked (.inr (.inl reported))
    refine Sound.append ?_ _
    refine hs.keep (.inl hlink) rfl rfl rfl rfl (by simp) (fun _ => hlink) (fun hv => ?_)
      (by simp)
    obtain ⟨_, ⟨⟩, _⟩ := hv
  | revoked op failed invalid => exact absurd (hs.backed (.inr (.inr failed))).valid invalid
  | resent op failed valid link delivery =>
    refine Sound.append ?_ _
    refine hs.keep (.inl link) rfl rfl rfl rfl (by simp) (by simp) (fun hv => ?_) (by simp)
    have := (hs.confirmed hv).2
    simp [failed] at this
  | retried op failed valid unlinked begins =>
    refine Sound.append ?_ _
    exact hs.keep (.inr (.inr failed)) rfl rfl rfl rfl (by simp) (by simp)
      (fun hv => absurd hv (idle unlinked)) (by simp)
  | markedSent op unsent link delivery =>
    refine Sound.append ?_ _
    refine hs.keep (.inl link) rfl rfl rfl rfl (by simp) (fun _ => link) (fun hv => ?_)
      (by simp)
    have := (hs.confirmed hv).2
    rcases unsent with hd | hd <;> simp [hd] at this
  | delivered unsent link delivery =>
    refine Sound.append ?_ _
    refine hs.keep (.inl link) rfl rfl rfl rfl (by simp) (fun _ => link) (fun hv => ?_)
      (by simp)
    have := (hs.confirmed hv).2
    rcases unsent with hd | hd <;> simp [hd] at this
  | expired live unconfirmed =>
    have hlink : h.linkExists := live.elim (fun hd => hs.linked (.inl hd))
      fun hd => hs.linked (.inr (.inl hd))
    refine Sound.append ?_ _
    exact hs.keep (.inl hlink) rfl rfl rfl rfl (by simp) (fun _ => hlink)
      (fun hv => absurd hv unconfirmed) (by simp)
  | recorded unpaid verified paymentId evidenceEventId =>
    have hlink := (hs.confirmed verified).1
    refine Sound.append ?_ _
    refine hs.keep (.inl hlink) rfl rfl rfl rfl (by simp) (by simp) (fun _ => ⟨hlink, by simp⟩)
      (fun _ => ?_)
    obtain ⟨payment, hpayment, hv⟩ := verified
    exact ⟨_, Option.mem_map_of_mem _ hpayment, hv⟩
  | pending reported verified failure =>
    have hlink := hs.linked (.inr (.inl reported))
    refine Sound.append ?_ _
    exact hs.keep (.inl hlink) rfl rfl rfl rfl (by simp [reported]) (fun _ => hlink)
      (fun hv => hs.confirmed hv) (by simp [reported])

theorem LinkHead.Sound.moves (hs : h.Sound lib approvals) (hmoves : Moves lib call h head effects) :
    head.Sound lib (approvals ++ (call.approved head).toList) := by
  obtain ⟨moved, now, sourceEventId, hmoved, rfl⟩ := hmoves
  exact (hs.move hmoved).touch now sourceEventId

end Approval

def LinkEffect.needsApproval : LinkEffect → Bool
  | .queueCreate | .queueSend | .wakeBrowser => true
  | .putRecipient _ _ _ _ | .cancelJobs | .writeEvidence _ _ _ _ _ _ => false

def LinkEffect.isEvidence : LinkEffect → Bool
  | .writeEvidence _ _ _ _ _ _ => true
  | _ => false

theorem Begins.effects_eq {grant : Option BrowserGrant} (hb : Begins h grant effects) :
    effects = [.queueCreate] ∨ effects = [.wakeBrowser] := by
  cases hb with
  | api => exact .inl rfl
  | browser => exact .inr rfl

theorem LinkHead.reopened_effects (h : LinkHead) :
    h.reopened.2 = [] ∨ h.reopened.2 = [.cancelJobs] := by
  unfold reopened
  split_ifs
  · exact .inr rfl
  · exact .inl rfl
  · exact .inl rfl

theorem Redrafted.mem_effects (hred : Redrafted h head effects) {e : LinkEffect}
    (he : e ∈ effects ++ head.reopened.2) :
    (∃ recipientRef channel address name, e = .putRecipient recipientRef channel address name) ∨
      e = .cancelJobs := by
  rcases List.mem_append.1 he with he | he
  · exact .inl (hred.recipient e he)
  · rcases head.reopened_effects with hr | hr <;> rw [hr] at he
    · cases he
    · exact .inr (List.mem_singleton.1 he)

theorem Moved.creating (hmoved : Moved lib call h moved effects) {e : LinkEffect} (he : e ∈ effects)
    (hneeds : e.needsApproval = true) : moved.state = .creatingLink := by
  cases hmoved with
  | edited op editable redrafted =>
    rcases redrafted.mem_effects he with ⟨_, _, _, _, rfl⟩ | rfl <;> cases hneeds
  | approved => rfl
  | linked creating => exact creating
  | resent => rfl
  | retried => rfl
  | failed creating failure delivery grant left =>
    rcases left with rfl | ⟨rfl, -⟩
    · cases he
    · cases List.mem_singleton.1 he
      cases hneeds
  | _ =>
    first
    | exact absurd he List.not_mem_nil
    | cases List.mem_singleton.1 he
      cases hneeds

theorem Moved.evidence (hmoved : Moved lib call h moved effects) {source : PaymentSource}
    {reference : Option String} {amountMinor : Int} {currency : String} {paidAt : Int}
    {noticeId : Option Uuid}
    (he : .writeEvidence source reference amountMinor currency paidAt noticeId ∈ effects) :
    amountMinor = moved.amountMinor ∧ currency = moved.currency := by
  cases hmoved with
  | edited op editable redrafted =>
    rcases redrafted.mem_effects he with ⟨_, _, _, _, heq⟩ | heq <;> cases heq
  | approved op owner waiting facts begins =>
    rcases begins.effects_eq with rfl | rfl <;> cases List.mem_singleton.1 he
  | retried op failed valid unlinked begins =>
    rcases begins.effects_eq with rfl | rfl <;> cases List.mem_singleton.1 he
  | failed creating failure delivery grant left =>
    rcases left with rfl | ⟨rfl, -⟩
    · cases he
    · cases List.mem_singleton.1 he
  | verified =>
    cases List.mem_singleton.1 he
    exact ⟨rfl, rfl⟩
  | _ =>
    first
    | exact absurd he List.not_mem_nil
    | cases List.mem_singleton.1 he

theorem countP_isEvidence_eq_zero (hno : ∀ e ∈ effects, e.isEvidence = false) :
    effects.countP LinkEffect.isEvidence = 0 :=
  List.countP_eq_zero.2 fun e he => by rw [hno e he]; exact Bool.noConfusion

theorem Moved.countP_evidence (hmoved : Moved lib call h moved effects) :
    effects.countP LinkEffect.isEvidence = 0 ∨
      (effects.countP LinkEffect.isEvidence = 1 ∧ ¬h.paymentIs .verified ∧
        moved.paymentIs .verified) := by
  cases hmoved with
  | edited op editable redrafted =>
    refine .inl (countP_isEvidence_eq_zero fun e he => ?_)
    rcases redrafted.mem_effects he with ⟨_, _, _, _, rfl⟩ | rfl <;> rfl
  | approved op owner waiting facts begins =>
    rcases begins.effects_eq with rfl | rfl <;> exact .inl rfl
  | retried op failed valid unlinked begins =>
    rcases begins.effects_eq with rfl | rfl <;> exact .inl rfl
  | failed creating failure delivery grant left =>
    rcases left with rfl | ⟨rfl, -⟩ <;> exact .inl rfl
  | verified link counts unconfirmed => exact .inr ⟨rfl, unconfirmed, _, rfl, rfl⟩
  | _ => exact .inl rfl

def PaymentInfo.claim (payment : PaymentInfo) : PaymentInfo :=
  { payment with paymentId := none, evidenceEventId := none }

theorem Moved.payment_kept (hs : h.Sound lib approvals) (hmoved : Moved lib call h moved effects)
    (hverified : h.paymentIs .verified) :
    moved.payment.map PaymentInfo.claim = h.payment.map PaymentInfo.claim := by
  cases hmoved with
  | @edited _ _ _ head _ op editable redrafted =>
    rw [head.reopened_payment, redrafted.payment]
  | reported counts unconfirmed =>
    rcases unconfirmed with hsent | hopen
    · have := (hs.confirmed hverified).2
      simp [hsent] at this
    · exact absurd hverified hopen
  | verified link counts unconfirmed => exact absurd hverified unconfirmed
  | dismissed op reported unconfirmed =>
    obtain ⟨payment, hpayment, hstate⟩ := unconfirmed
    obtain ⟨payment', hpayment', hstate'⟩ := hverified
    cases hpayment.symm.trans hpayment'
    cases hstate.symm.trans hstate'
  | recorded => rw [Option.map_map]; rfl
  | _ => rfl

theorem Moved.unpaid (hmoved : Moved lib call h moved effects) : h.state ≠ .paid := by
  intro hpaid
  cases hmoved with
  | edited op editable => rw [LinkHead.editable, hpaid] at editable; cases editable
  | rejected op waiting => simp [hpaid] at waiting
  | cancelled op live => rw [hpaid] at live; cases live
  | reported counts => simp [hpaid, LinkHead.takesPayment] at counts
  | verified link counts => exact counts.2.2 hpaid
  | markedSent op unsent => simp [hpaid] at unsent
  | delivered unsent => simp [hpaid] at unsent
  | expired live => simp [hpaid] at live
  | recorded unpaid => exact unpaid hpaid
  | _ => simp_all

theorem Moved.verified_of_paid (hmoved : Moved lib call h moved effects)
    (hpaid : moved.state = .paid) : h.paymentIs .verified := by
  have hunpaid := hmoved.unpaid
  cases hmoved with
  | @edited _ _ _ head _ op editable redrafted =>
    rcases head.reopened_state with hstate | ⟨hstate, -, -⟩
    · cases hstate.symm.trans hpaid
    · exact absurd (redrafted.state.symm.trans (hstate.symm.trans hpaid)) hunpaid
  | linked => exact absurd hpaid hunpaid
  | recorded unpaid verified => exact verified
  | pending reported verified => exact verified
  | _ => cases hpaid

theorem Moves.countP_evidence (hmoves : Moves lib call h head effects) :
    effects.countP LinkEffect.isEvidence = 0 ∨
      (effects.countP LinkEffect.isEvidence = 1 ∧ ¬h.paymentIs .verified ∧
        head.paymentIs .verified) := by
  obtain ⟨moved, now, sourceEventId, hmoved, rfl⟩ := hmoves
  exact hmoved.countP_evidence

theorem Moves.payment_kept (hmoves : Moves lib call h head effects) (hs : h.Sound lib approvals)
    (hverified : h.paymentIs .verified) :
    head.payment.map PaymentInfo.claim = h.payment.map PaymentInfo.claim := by
  obtain ⟨moved, now, sourceEventId, hmoved, rfl⟩ := hmoves
  exact (Moved.payment_kept hs hmoved hverified :)

theorem LinkHead.paymentIs_of_claim {state : PaymentState}
    (hclaim : head.payment.map PaymentInfo.claim = h.payment.map PaymentInfo.claim)
    (hstate : h.paymentIs state) : head.paymentIs state := by
  obtain ⟨payment, hpayment, hstate⟩ := hstate
  rw [hpayment, Option.map_some, Option.map_eq_some_iff] at hclaim
  obtain ⟨payment', hpayment', hclaim⟩ := hclaim
  exact ⟨payment', hpayment', (congrArg PaymentInfo.state hclaim).trans hstate⟩

theorem Moves.verified_kept (hmoves : Moves lib call h head effects) (hs : h.Sound lib approvals)
    (hverified : h.paymentIs .verified) : head.paymentIs .verified :=
  LinkHead.paymentIs_of_claim (hmoves.payment_kept hs hverified) hverified

namespace Card

variable (lib) in
structure Inv (card : Card) : Prop where
  sound : ∀ h ∈ card.head, h.Sound lib card.approvals
  evidence : card.emitted.countP LinkEffect.isEvidence = 0 ∨
    card.emitted.countP LinkEffect.isEvidence = 1 ∧ ∃ h ∈ card.head, h.paymentIs .verified

theorem Inv.step (hinv : card.Inv lib) (call : Call) : (card.step lib call).Inv lib := by
  rcases card.step_cases call with heq | ⟨head, effects, hfrom, heq⟩ <;> rw [heq]
  · exact hinv
  rcases hfrom with ⟨hnone, hdrafted⟩ | ⟨h, hh, hmoves⟩
  · refine ⟨?_, .inl ?_⟩
    · rintro _ ⟨⟩
      exact hdrafted.sound
    · obtain ⟨_, _, _, _, rfl⟩ := hdrafted.recipient
      rcases hinv.evidence with hzero | ⟨-, h, hh, -⟩
      · rw [store, List.countP_append, hzero]
        rfl
      · cases hnone.symm.trans hh
  · have hs := hinv.sound h hh
    refine ⟨?_, ?_⟩
    · rintro _ ⟨⟩
      exact hs.moves hmoves
    · rw [store, List.countP_append]
      rcases hmoves.countP_evidence with hzero | ⟨hone, hopen, hverified⟩
      · rw [hzero]
        refine hinv.evidence.imp_right fun ⟨hone, h', hh', hverified⟩ => ⟨hone, head, rfl, ?_⟩
        cases hh.symm.trans hh'
        exact hmoves.verified_kept hs hverified
      · rcases hinv.evidence with hzero | ⟨-, h', hh', hverified'⟩
        · rw [hzero, hone]
          exact .inr ⟨rfl, head, rfl, hverified⟩
        · cases hh.symm.trans hh'
          exact absurd hverified' hopen

theorem Inv.granted (hinv : card.Inv lib) {h : LinkHead} (hhead : card.head = some h)
    (grant : BrowserGrant) (now : Int) (sourceEventId : String) :
    { card with head := some ({ h with browserGrant := some grant }.touch now sourceEventId) }.Inv
      lib := by
  have hs := hinv.sound h hhead
  refine ⟨?_, hinv.evidence.imp_right fun ⟨hone, h', hh', hverified⟩ => ⟨hone, _, rfl, ?_⟩⟩
  · rintro _ ⟨⟩
    exact ⟨fun hlive => (hs.backed hlive).congr rfl rfl rfl, hs.shown, hs.unlinked, hs.linked,
      hs.confirmed, hs.paid⟩
  · cases hhead.symm.trans hh'
    exact hverified

theorem Inv.run (hinv : card.Inv lib) (calls : List Call) :
    (runFrom (Card.step lib) card calls).Inv lib := by
  induction calls generalizing card with
  | nil => exact hinv
  | cons call calls ih => exact ih (hinv.step call)

theorem inv_blank : Card.blank.Inv lib := ⟨fun _ hh => (Option.not_mem_none _ hh).elim, .inl rfl⟩

theorem Inv.backed_of_needs (hinv : card.Inv lib) {head : LinkHead} {effects : List LinkEffect}
    (happly : call.apply lib card.head = .ok (.changed head effects)) {e : LinkEffect}
    (he : e ∈ effects) (hneeds : e.needsApproval = true) :
    head.Backed lib (card.step lib call).approvals := by
  have hstep : card.step lib call = card.store call head effects := by rw [Card.step, happly]
  have hinv' := hinv.step call
  rw [hstep] at hinv' ⊢
  refine (hinv'.sound head rfl).backed (.inr (.inl ?_))
  rcases Call.apply_changed happly with ⟨-, hdrafted⟩ | ⟨h, -, moved, now, sourceEventId, hmoved, rfl⟩
  · obtain ⟨_, _, _, _, rfl⟩ := hdrafted.recipient
    cases List.mem_singleton.1 he
    cases hneeds
  · exact (hmoved.creating he hneeds :)

theorem run_approved (lib : Libs) (calls : List Call) :
    let card := runFrom (Card.step lib) .blank calls
    (∀ h ∈ card.head, h.linkExists ∨ h.state = .creatingLink → h.Backed lib card.approvals) ∧
    (∀ h ∈ card.head, ∀ link ∈ h.link,
      link.shownAmountMinor = h.amountMinor ∧ link.shownCurrency = h.currency) ∧
    ∀ (call : Call) (head : LinkHead) (effects : List LinkEffect),
      call.apply lib card.head = .ok (.changed head effects) →
      ∀ e ∈ effects, e.needsApproval = true → head.Backed lib (card.step lib call).approvals := by
  intro card
  have hinv : card.Inv lib := inv_blank.run calls
  refine ⟨fun h hh hlive => ?_, fun h hh => (hinv.sound h hh).shown, ?_⟩
  · exact (hinv.sound h hh).backed (hlive.imp_right .inl)
  · exact fun call head effects happly e he hneeds => hinv.backed_of_needs happly he hneeds

theorem step_paid {h : LinkHead} (hhead : card.head = some h) (hpaid : h.state = .paid)
    (call : Call) : card.step lib call = card := by
  rcases card.step_cases call with heq | ⟨head, effects, ⟨hnone, -⟩ | ⟨h', hh', hmoves⟩, -⟩
  · exact heq
  · cases hnone.symm.trans hhead
  · cases hhead.symm.trans hh'
    obtain ⟨moved, now, sourceEventId, hmoved, -⟩ := hmoves
    exact absurd hpaid hmoved.unpaid

theorem run_paid {h : LinkHead} (hhead : card.head = some h) (hpaid : h.state = .paid)
    (calls : List Call) : runFrom (Card.step lib) card calls = card := by
  induction calls with
  | nil => rfl
  | cons call calls ih => rw [runFrom_cons, step_paid hhead hpaid call, ih]

theorem Inv.entered_paid (hinv : card.Inv lib) (call : Call) {head : LinkHead}
    (hhead : (card.step lib call).head = some head) (hpaid : head.state = .paid) :
    ∃ h, card.head = some h ∧ h.paymentIs .verified ∧ h.linkExists := by
  suffices hverified : ∃ h, card.head = some h ∧ h.paymentIs .verified by
    obtain ⟨h, hh, hv⟩ := hverified
    exact ⟨h, hh, hv, ((hinv.sound h hh).confirmed hv).1⟩
  rcases card.step_cases call with heq | ⟨head', effects, hfrom, heq⟩
  · rw [heq] at hhead
    exact ⟨head, hhead, (hinv.sound head hhead).paid hpaid⟩
  · rw [heq] at hhead
    cases hhead
    rcases hfrom with ⟨-, hdrafted⟩ | ⟨h, hh, moved, now, sourceEventId, hmoved, rfl⟩
    · rcases hdrafted.state with hs | hs <;> cases hs.symm.trans hpaid
    · exact ⟨h, hh, hmoved.verified_of_paid hpaid⟩

theorem Inv.payment_run (hinv : card.Inv lib) {h : LinkHead} (hhead : card.head = some h)
    (hverified : h.paymentIs .verified) (calls : List Call) :
    ∃ h', (runFrom (Card.step lib) card calls).head = some h' ∧ h'.paymentIs .verified ∧
      h'.payment.map PaymentInfo.claim = h.payment.map PaymentInfo.claim := by
  induction calls generalizing card h with
  | nil => exact ⟨h, hhead, hverified, rfl⟩
  | cons call calls ih =>
    have hnext := hinv.step call
    rcases card.step_cases call with heq | ⟨head, effects, ⟨hnone, -⟩ | ⟨h₀, hh₀, hmoves⟩, heq⟩
    · exact ih hnext (heq.symm ▸ hhead) hverified
    · cases hnone.symm.trans hhead
    · cases hhead.symm.trans hh₀
      have hs := hinv.sound h hhead
      obtain ⟨h', hh', hv', hclaim⟩ := ih hnext (heq.symm ▸ rfl) (hmoves.verified_kept hs hverified)
      exact ⟨h', hh', hv', hclaim.trans (hmoves.payment_kept hs hverified)⟩

theorem run_paid_once (lib : Libs) (calls more : List Call) :
    let card := runFrom (Card.step lib) .blank calls
    let later := runFrom (Card.step lib) card more
    (∀ h ∈ card.head, h.state = .paid → later.head = some h) ∧
    (∀ call, ∀ head ∈ (card.step lib call).head, head.state = .paid →
      ∃ h ∈ card.head, h.paymentIs .verified ∧ h.linkExists) ∧
    (∀ h ∈ card.head, h.paymentIs .verified → ∃ h' ∈ later.head, h'.paymentIs .verified ∧
      h'.payment.map PaymentInfo.claim = h.payment.map PaymentInfo.claim) ∧
    card.emitted.countP LinkEffect.isEvidence ≤ 1 ∧
    ∀ (call : Call) (head : LinkHead) (effects : List LinkEffect) source reference amountMinor
      currency paidAt noticeId, call.apply lib card.head = .ok (.changed head effects) →
      .writeEvidence source reference amountMinor currency paidAt noticeId ∈ effects →
        amountMinor = head.amountMinor ∧ currency = head.currency := by
  intro card later
  have hinv : card.Inv lib := inv_blank.run calls
  refine ⟨fun h hh hpaid => ?_, fun call head hhead => hinv.entered_paid call hhead,
    fun h hh hv => hinv.payment_run hh hv more, ?_, ?_⟩
  · exact (congrArg Card.head (run_paid hh hpaid more)).trans hh
  · rcases hinv.evidence with hzero | ⟨hone, -⟩
    · exact hzero.trans_le (Nat.zero_le 1)
    · exact hone.le
  · intro call head effects _ _ _ _ _ _ happly he
    rcases Call.apply_changed happly with ⟨-, hdrafted⟩ | ⟨h, -, moved, _, _, hmoved, rfl⟩
    · obtain ⟨_, _, _, _, rfl⟩ := hdrafted.recipient
      cases List.mem_singleton.1 he
    · exact (hmoved.evidence he :)

end Card

def LinkState.past : LinkState → Bool
  | .cancelled | .expired | .paymentReported | .paid => true
  | _ => false

theorem LinkState.past_of_lapses {state : LinkState} (hl : state.lapses = true) :
    state.past = true := by
  cases state <;> first | rfl | cases hl

theorem Moved.past (hmoved : Moved lib call h moved effects) (hpast : h.state.past = true)
    (hkeep : call.op ≠ some .dismissReport) : moved.state.past = true := by
  cases hmoved with
  | dismissed op => exact absurd (congrArg some op) hkeep
  | edited op editable =>
    unfold LinkHead.editable at editable
    cases hstate : h.state <;> simp [hstate, LinkState.past] at hpast editable
  | linked creating => rw [creating] at hpast; cases hpast
  | pending => exact hpast
  | submitted op draft => rw [draft] at hpast; cases hpast
  | approved op owner waiting => rw [waiting] at hpast; cases hpast
  | mismatched creating => rw [creating] at hpast; cases hpast
  | failed creating => rw [creating] at hpast; cases hpast
  | revoked op failed => rw [failed] at hpast; cases hpast
  | resent op failed => rw [failed] at hpast; cases hpast
  | retried op failed => rw [failed] at hpast; cases hpast
  | markedSent op unsent => rcases unsent with hd | hd <;> rw [hd] at hpast <;> cases hpast
  | delivered unsent => rcases unsent with hd | hd <;> rw [hd] at hpast <;> cases hpast
  | _ => rfl

namespace Card

theorem run_past (lib : Libs) {calls : List Call}
    (hkeep : Along (Card.step lib)
      (fun card call => card.lapsed = true → call.op ≠ some .dismissReport) .blank calls) :
    let card := runFrom (Card.step lib) .blank calls
    card.lapsed = true → ∃ h ∈ card.head, h.state.past = true := by
  refine hkeep.preserves (p := fun card => card.lapsed = true → ∃ h ∈ card.head, h.state.past = true)
    (fun card call hcard hkeep => ?_) (fun hl => by cases hl)
  rcases card.step_cases call with heq | ⟨head, effects, hfrom, heq⟩ <;> rw [heq]
  · exact hcard
  intro hlapsed
  refine ⟨head, rfl, ?_⟩
  rcases Bool.or_eq_true_iff.1 hlapsed with hl | hl
  · obtain ⟨h, hh, hpast⟩ := hcard hl
    rcases hfrom with ⟨hnone, -⟩ | ⟨h', hh', moved, now, sourceEventId, hmoved, rfl⟩
    · cases hnone.symm.trans hh
    · cases hh.symm.trans hh'
      exact (hmoved.past hpast (hkeep hl) :)
  · exact LinkState.past_of_lapses hl

section Sample

def plainLibs : Libs where
  sha256Hex := id
  cardRef _ := "card"
  derivedEventId _ _ _ := "event"
  jsonString s := "\"" ++ s ++ "\""
  percentEncode c := [c]
  parseUrl _ := some ⟨"https", some "pay.example", "", none⟩

def uuid (n : Nat) : Uuid := ⟨n⟩

def owner : LinkActor := ⟨"owner", .ownerAdmin⟩

def context (now : Int) (recipient : Nat) : LinkContext where
  now
  actor := owner
  invoice := some ⟨.issued, "ZAR", 50000, 50000, "INV-1", uuid 2, "Client"⟩
  connection := some ⟨uuid 3, "Provider", .api, .connected, true, none⟩
  actionEventId := "action"
  newRecipientRef := uuid recipient

def hexId (c : Char) : String := String.ofList (List.replicate 64 c)

def draftAction : LinkAction where
  op := .draft
  linkId := uuid 1
  partyId := some "party"
  invoiceId := some (uuid 4)
  amountMinor := some 50000
  currency := some "ZAR"
  purpose := some "Work"
  connectionId := some (uuid 3)
  recipient := some ⟨.email, "client@example.com", "Client"⟩
  message := some "Pay here: \x7blink\x7d"
  expiresInDays := some 1

def shownFacts (days : Nat) : ApprovalFacts :=
  ⟨uuid 4, 50000, "ZAR", uuid 3, uuid 5, "Pay here: \x7blink\x7d", days⟩

def ownerAction (op : LinkOp) (seen : Char) (days : Nat) : LinkAction where
  op
  linkId := uuid 1
  expectedHeadEventId := some (hexId seen)
  expiresInDays := some days
  facts := some (shownFacts days)

def drafts (now : Int) : Call := .act draftAction (context now 5)

def gives (op : LinkOp) (now : Int) : Call := .act (ownerAction op 'a' 1) (context now 5)

def relay (op : SystemOp) (now : Int) : Call := .system op now "relay"

def linkArrives : SystemOp := .linkCreated "https://pay.example/1" (some "plink_1") 50000 "ZAR"

def unsignedNotice : SystemOp := .notice (uuid 6) none none none none 90000 none

def isSent : List Call :=
  [drafts 0, gives .approve 0, relay linkArrives 10, relay .delivered 20]

def expires : List Call := isSent ++ [relay .expire 90000]

def after (calls : List Call) : Card := runFrom (Card.step plainLibs) .blank calls

def state (card : Card) : Option LinkState := card.head.map LinkHead.state

end Sample

theorem run_past_expires :
    Along (Card.step plainLibs) (fun card call => card.lapsed = true → call.op ≠ some .dismissReport)
      .blank expires ∧ ∃ h ∈ (after expires).head, h.state.past = true := by
  have hkeep : Along (Card.step plainLibs)
      (fun card call => card.lapsed = true → call.op ≠ some .dismissReport) .blank expires := by
    decide +kernel
  exact ⟨hkeep, run_past plainLibs hkeep (by decide +kernel)⟩

theorem expired_then_sent :
    (after expires).state = some .expired ∧
      (after (expires ++ [relay unsignedNotice 90001, gives .dismissReport 90002])).state =
        some .sent := by
  decide +kernel

end Card

section Repeats

theorem applySystem_again {op : SystemOp} {now : Int} {sourceEventId : String}
    (hop : ∀ reason, op ≠ .evidencePending reason)
    (hchanged : applySystem lib h op now sourceEventId = .ok (.changed head effects)) :
    ∃ message, applySystem lib head op now sourceEventId = .ok (.unchanged message) := by
  cases op with
  | linkCreated url providerReference shownAmountMinor shownCurrency =>
    simp only [applySystem, stored] at hchanged
    split at hchanged
    · cases hchanged
    · split at hchanged
      · cases hchanged
      · cases hchanged
        refine ⟨_, if_pos ?_⟩
        unfold linkChecked
        simp only
        split
        · exact .inl (by simp [LinkHead.touch])
        · exact .inr rfl
  | delivered | grantExpired | expire =>
    simp only [applySystem, stored] at hchanged
    repeat' split at hchanged
    all_goals cases hchanged
    simp [applySystem, LinkHead.touch, failHead]
  | deliveryFailed _ _ _ | fail _ _ _ =>
    simp only [applySystem, stored] at hchanged
    split at hchanged <;> cases hchanged
    simp [applySystem, LinkHead.touch, failHead]
  | notice noticeId verifiedBy reference amountMinor currency paidAt mismatch =>
    simp only [applySystem, stored] at hchanged
    split at hchanged
    · cases hchanged
    · next hcounts =>
      have hlink : h.linkExists := (not_not.1 hcounts).1
      split at hchanged
      · cases hchanged
      · split at hchanged
        · cases hchanged
          simp only [LinkHead.linkExists] at hlink
          simp [applySystem, LinkHead.touch, LinkHead.verifiedBy, LinkHead.linkExists, hlink,
            LinkHead.takesPayment, LinkHead.paymentIs]
        · next hunverified =>
          split at hchanged
          · cases hchanged
          · cases hchanged
            simp only [LinkHead.linkExists] at hlink
            simp [applySystem, LinkHead.touch, LinkHead.linkExists, hlink, LinkHead.takesPayment,
              LinkHead.paymentIs]
  | evidenceRecorded paymentId evidenceEventId =>
    simp only [applySystem, stored] at hchanged
    repeat' split at hchanged
    all_goals cases hchanged
    simp [applySystem, LinkHead.touch]
  | evidencePending reason => exact absurd rfl (hop reason)

/-- Repeating a relay transition changes nothing, but for the note that evidence is still to be
written. -/
theorem applySystem_repeat_iff (lib : Libs) (h : LinkHead) (op : SystemOp) (now : Int)
    (sourceEventId : String) :
    (∀ head effects, applySystem lib h op now sourceEventId = .ok (.changed head effects) →
      ∃ message, applySystem lib head op now sourceEventId = .ok (.unchanged message)) ↔
      ¬((∃ reason, op = .evidencePending reason) ∧ h.state = .paymentReported ∧
        h.paymentIs .verified) := by
  constructor
  · rintro hrepeat ⟨⟨reason, rfl⟩, hstate, hverified⟩
    have hwaits {g : LinkHead} (hg : g.state = .paymentReported) (hp : g.paymentIs .verified) :
        applySystem lib g (.evidencePending reason) now sourceEventId =
          stored { g with failure := some ⟨"evidence_pending", reason, false, now⟩ } [] now
            sourceEventId := by
      exact if_neg (by simp [hg, hp])
    obtain ⟨message, hsame⟩ := hrepeat _ _ (hwaits hstate hverified)
    cases (hwaits (show (LinkHead.touch _ _ _).state = _ from hstate) hverified).symm.trans hsame
  · intro hkind head effects hchanged
    by_cases hop : ∀ reason, op ≠ .evidencePending reason
    · exact applySystem_again hop hchanged
    · simp only [not_forall, not_not] at hop
      obtain ⟨reason, rfl⟩ := hop
      simp only [applySystem] at hchanged
      split at hchanged
      · cases hchanged
      · next hwaits =>
        rw [not_or, not_not, not_not] at hwaits
        exact absurd ⟨⟨reason, rfl⟩, hwaits⟩ hkind

end Repeats

namespace Card

def isConfirmed : List Call :=
  isSent ++ [relay (.notice (uuid 6) (some .hmac) none none none 30 none) 30]

def notWritten : Call := relay (.evidencePending "the ledger is down") 40

theorem pending_twice :
    (after (isConfirmed ++ [notWritten])).head.map LinkHead.version = some 6 ∧
      (after (isConfirmed ++ [notWritten, notWritten])).head.map LinkHead.version = some 7 := by
  decide +kernel

end Card

end Colony.Money
