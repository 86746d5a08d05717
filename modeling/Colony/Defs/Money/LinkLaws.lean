import Colony.Defs.Money.Link

namespace Colony.Money

open Colony.Core Colony.Data

inductive Call
  | act (action : LinkAction) (ctx : LinkContext)
  | system (op : SystemOp) (now : Int) (sourceEventId : String)

def Call.apply (lib : Libs) (current : Option LinkHead) : Call → Except MoneyError LinkChange
  | .act action ctx => applyLinkAction lib current action ctx
  | .system op now sourceEventId => match current with
    | none => .error (MoneyError.conflict "card_missing" "there is no payment link card with this id")
    | some current => applySystem lib current op now sourceEventId

def Call.op : Call → Option LinkOp
  | .act action _ => some action.op
  | .system _ _ _ => none

structure Drafted (head : LinkHead) (effects : List LinkEffect) : Prop where
  state : head.state = .draft ∨ head.state = .needsYou
  approval : head.approval = none
  link : head.link = none
  payment : head.payment = none
  recipient : ∃ recipientRef channel address name,
    effects = [.putRecipient recipientRef channel address name]

structure Redrafted (h head : LinkHead) (effects : List LinkEffect) : Prop where
  state : head.state = h.state
  expiresAt : head.expiresAt = h.expiresAt
  approval : head.approval = h.approval
  link : head.link = h.link
  payment : head.payment = h.payment
  recipient : ∀ e ∈ effects, ∃ recipientRef channel address name,
    e = .putRecipient recipientRef channel address name

/-- How the link of an approved card comes about: by the relay's job or in the browser. -/
inductive Begins (h : LinkHead) : Option BrowserGrant → List LinkEffect → Prop
  | api (route : h.route = .api) : Begins h h.browserGrant [.queueCreate]
  | browser (route : h.route = .browser) (grant : BrowserGrant) :
    Begins h (some grant) [.wakeBrowser]

inductive Moved (lib : Libs) : Call → LinkHead → LinkHead → List LinkEffect → Prop
  | edited {action : LinkAction} {ctx : LinkContext} {h head : LinkHead} {effects : List LinkEffect}
      (op : action.op = .edit) (editable : h.editable = true)
      (redrafted : Redrafted h head effects) :
    Moved lib (.act action ctx) h head.reopened.1 (effects ++ head.reopened.2)
  | submitted {action : LinkAction} {ctx : LinkContext} {h : LinkHead}
      (op : action.op = .submit) (draft : h.state = .draft) :
    Moved lib (.act action ctx) h { h with state := .needsYou, waitingFor := none } []
  | approved {action : LinkAction} {ctx : LinkContext} {h : LinkHead} {effects : List LinkEffect}
      (op : action.op = .approve) (owner : ctx.actor.role = .ownerAdmin)
      (waiting : h.state = .needsYou) (facts : action.facts = some h.facts)
      {headId : String} {grant : Option BrowserGrant} (begins : Begins h grant effects) :
    Moved lib (.act action ctx) h
      { h with
        approval := some ⟨ctx.actor.pubkey, ctx.now, h.approvalDigest lib, headId⟩
        approvalVoided := false
        state := .creatingLink
        failure := none
        expiresAt := some (ctx.now + h.expiresInDays * DAY_SECS)
        browserGrant := grant } effects
  | rejected {action : LinkAction} {ctx : LinkContext} {h : LinkHead}
      (op : action.op = .reject) (waiting : h.state = .draft ∨ h.state = .needsYou)
      (reason : String) :
    Moved lib (.act action ctx) h
      { h with
        state := .cancelled
        cancelReason := some reason
        approval := none
        browserGrant := none } [.cancelJobs]
  | cancelled {action : LinkAction} {ctx : LinkContext} {h : LinkHead}
      (op : action.op = .cancel) (live : h.state.isTerminal = false) (reason : String) :
    Moved lib (.act action ctx) h
      { h with state := .cancelled, cancelReason := some reason, browserGrant := none } [.cancelJobs]
  | linked {call : Call} {h : LinkHead}
      (creating : h.state = .creatingLink) (unlinked : ¬h.linkExists)
      (valid : h.approvalIsValid lib) (link : CreatedLink)
      (shown : link.shownAmountMinor = h.amountMinor ∧ link.shownCurrency = h.currency)
      (delivery : Option Delivery) :
    Moved lib call h { h with link := some link, delivery, failure := none } [.queueSend]
  | mismatched {call : Call} {h : LinkHead}
      (creating : h.state = .creatingLink) (unlinked : ¬h.linkExists) (failure : Failure) :
    Moved lib call h
      { h.voidApproval with state := .needsYou, expiresAt := none, failure := some failure }
      [.cancelJobs]
  | failed {call : Call} {h : LinkHead} {effects : List LinkEffect}
      (creating : h.state = .creatingLink) (failure : Failure) (delivery : Option Delivery)
      (browserGrant : Option BrowserGrant)
      (left : effects = [] ∨ (effects = [.cancelJobs] ∧ ¬h.linkExists)) :
    Moved lib call h { h with state := .failed, failure := some failure, delivery, browserGrant }
      effects
  | reported {call : Call} {h : LinkHead}
      (counts : h.state = .sent ∨ (h.linkExists ∧ h.takesPayment = true))
      (unconfirmed : h.state = .sent ∨ ¬h.paymentIs .verified) (payment : PaymentInfo)
      (state : payment.state = .reported) :
    Moved lib call h { h with state := .paymentReported, payment := some payment } []
  | verified {call : Call} {h : LinkHead}
      (link : h.linkExists) (counts : h.state ≠ .draft ∧ h.state ≠ .needsYou ∧ h.state ≠ .paid)
      (unconfirmed : ¬h.paymentIs .verified) (source : PaymentSource) (reference : Option String)
      (paidAt : Int) (noticeId : Option Uuid) :
    Moved lib call h (h.verifiedBy source reference paidAt noticeId).1
      (h.verifiedBy source reference paidAt noticeId).2
  | dismissed {action : LinkAction} {ctx : LinkContext} {h : LinkHead}
      (op : action.op = .dismissReport) (reported : h.state = .paymentReported)
      (unconfirmed : h.paymentIs .reported) :
    Moved lib (.act action ctx) h { h with state := .sent, payment := none } []
  | revoked {action : LinkAction} {ctx : LinkContext} {h : LinkHead}
      (op : action.op = .retry) (failed : h.state = .failed)
      (invalid : ¬h.approvalIsValid lib) :
    Moved lib (.act action ctx) h { h.voidApproval with state := .needsYou, failure := none }
      [.cancelJobs]
  | resent {action : LinkAction} {ctx : LinkContext} {h : LinkHead}
      (op : action.op = .retry) (failed : h.state = .failed) (valid : h.approvalIsValid lib)
      (link : h.linkExists) (delivery : Option Delivery) :
    Moved lib (.act action ctx) h { h with failure := none, state := .creatingLink, delivery }
      [.queueSend]
  | retried {action : LinkAction} {ctx : LinkContext} {h : LinkHead} {effects : List LinkEffect}
      (op : action.op = .retry) (failed : h.state = .failed) (valid : h.approvalIsValid lib)
      (unlinked : ¬h.linkExists) {grant : Option BrowserGrant} (begins : Begins h grant effects) :
    Moved lib (.act action ctx) h
      { h with failure := none, state := .creatingLink, browserGrant := grant } effects
  | markedSent {action : LinkAction} {ctx : LinkContext} {h : LinkHead}
      (op : action.op = .markSent) (unsent : h.state = .creatingLink ∨ h.state = .failed)
      (link : h.linkExists) (delivery : Option Delivery) :
    Moved lib (.act action ctx) h { h with state := .sent, failure := none, delivery } [.cancelJobs]
  | delivered {call : Call} {h : LinkHead}
      (unsent : h.state = .creatingLink ∨ h.state = .failed) (link : h.linkExists)
      (delivery : Option Delivery) :
    Moved lib call h { h with state := .sent, failure := none, delivery } []
  | expired {call : Call} {h : LinkHead}
      (live : h.state = .sent ∨ h.state = .paymentReported)
      (unconfirmed : ¬h.paymentIs .verified) :
    Moved lib call h { h with state := .expired } []
  | recorded {call : Call} {h : LinkHead}
      (unpaid : h.state ≠ .paid) (verified : h.paymentIs .verified) (paymentId : Uuid)
      (evidenceEventId : String) :
    Moved lib call h
      { h with
        state := .paid
        failure := none
        payment := h.payment.map fun payment => { payment with
          paymentId := some paymentId
          evidenceEventId := some evidenceEventId } } []
  | pending {call : Call} {h : LinkHead}
      (reported : h.state = .paymentReported) (verified : h.paymentIs .verified)
      (failure : Failure) :
    Moved lib call h { h with failure := some failure } []

variable {lib : Libs} {action : LinkAction} {ctx : LinkContext} {call : Call}
  {h head : LinkHead} {effects : List LinkEffect}

/-- A change that is stored: a move of the card, and the time and event it is marked with. -/
def Moves (lib : Libs) (call : Call) (h head : LinkHead) (effects : List LinkEffect) : Prop :=
  ∃ moved now sourceEventId, Moved lib call h moved effects ∧ head = moved.touch now sourceEventId

theorem stored_moves {moved : LinkHead} {now : Int} {sourceEventId : String}
    {effects' : List LinkEffect}
    (hmoved : Moved lib call h moved effects')
    (hstored : stored moved effects' now sourceEventId = .ok (.changed head effects)) :
    Moves lib call h head effects := by
  cases hstored
  exact ⟨moved, now, sourceEventId, hmoved, rfl⟩

theorem recipientEffect_ok {input : RecipientInput} {recipientRef : Uuid}
    {out : LinkEffect × String} (hout : recipientEffect input recipientRef = .ok out) :
    ∃ address, out.1 = .putRecipient recipientRef input.channel address input.name := by
  simp only [recipientEffect, bind_eq_ok] at hout
  obtain ⟨address, -, hout⟩ := hout
  cases hout
  exact ⟨address, rfl⟩

theorem draft_changed (hdraft : draft lib action ctx = .ok (.changed head effects)) :
    Drafted head effects := by
  simp only [draft, bind_eq_ok, need_eq_ok, orRefuse_eq_ok] at hdraft
  obtain ⟨_, -, recipient, -, invoice, -, _, -, out, hout, _, -, _, -, _, -, _, -, _, -, _, -, _, -,
    _, -, hdraft⟩ := hdraft
  obtain ⟨address, haddress⟩ := recipientEffect_ok hout
  cases hdraft
  refine ⟨?_, rfl, rfl, rfl, _, _, _, _, congrArg (· :: []) haddress⟩
  dsimp only
  split
  · exact .inr rfl
  · exact .inl rfl

theorem withRecipient_redrafted {out : LinkHead × List LinkEffect}
    (hout : h.withRecipient action ctx = .ok out) : Redrafted h out.1 out.2 := by
  unfold LinkHead.withRecipient at hout
  split at hout
  · cases hout
    exact ⟨rfl, rfl, rfl, rfl, rfl, fun e he => nomatch he⟩
  · simp only [bind_eq_ok] at hout
    obtain ⟨put, hput, hout⟩ := hout
    cases hout
    obtain ⟨address, haddress⟩ := recipientEffect_ok hput
    refine ⟨rfl, rfl, rfl, rfl, rfl, fun e he => ?_⟩
    rw [List.mem_singleton] at he
    exact ⟨_, _, _, _, he.trans haddress⟩

theorem Redrafted.withInvoice (hred : Redrafted h head effects) (invoice : Option InvoiceFacts) :
    Redrafted h (head.withInvoice invoice) effects := by
  cases invoice with
  | none => exact hred
  | some invoice =>
    exact ⟨hred.state, hred.expiresAt, hred.approval, hred.link, hred.payment, hred.recipient⟩

theorem edit_changed (op : action.op = .edit)
    (hedit : edit lib h action ctx = .ok (.changed head effects)) :
    Moves lib (.act action ctx) h head effects := by
  simp only [edit, bind_eq_ok, ensure_eq_ok, exists_const] at hedit
  obtain ⟨heditable, -, out, hout, _, -, _, -, _, -, hstored⟩ := hedit
  have hred : Redrafted h out.1 out.2 := by
    have := withRecipient_redrafted hout
    exact ⟨this.state, this.expiresAt, this.approval, this.link, this.payment, this.recipient⟩
  exact stored_moves (.edited op heditable (hred.withInvoice ctx.invoice)) hstored

theorem submit_changed (op : action.op = .submit)
    (hsubmit : submit h ctx = .ok (.changed head effects)) :
    Moves lib (.act action ctx) h head effects := by
  simp only [submit, bind_eq_ok, ensure_eq_ok, exists_const] at hsubmit
  obtain ⟨hstate, -, _, -, _, -, hstored⟩ := hsubmit
  exact stored_moves (.submitted op hstate) hstored

theorem owner_of_isOwnerAdmin {role : ActorRole} (hrole : role.isOwnerAdmin = true) :
    role = .ownerAdmin := by
  cases role <;> first | rfl | cases hrole

theorem approve_changed (op : action.op = .approve)
    (happrove : approve lib h action ctx = .ok (.changed head effects)) :
    Moves lib (.act action ctx) h head effects := by
  simp only [approve, bind_eq_ok, ensure_eq_ok, exists_const, need_eq_ok] at happrove
  obtain ⟨hrole, hstate, facts, hfacts, headId, -, rfl, _, -, _, -, _, -, hstored⟩ := happrove
  have howner := owner_of_isOwnerAdmin hrole
  split at hstored
  · next hroute =>
    exact stored_moves (.approved op howner hstate hfacts (.api hroute)) hstored
  · next hroute =>
    exact stored_moves (.approved op howner hstate hfacts (.browser hroute _)) hstored

theorem reject_changed (op : action.op = .reject)
    (hreject : reject h action ctx = .ok (.changed head effects)) :
    Moves lib (.act action ctx) h head effects := by
  simp only [reject, bind_eq_ok, ensure_eq_ok, exists_const, need_eq_ok] at hreject
  obtain ⟨-, hstate, reason, -, hstored⟩ := hreject
  exact stored_moves (.rejected op hstate reason) hstored

theorem cancel_changed (op : action.op = .cancel)
    (hcancel : cancel h action ctx = .ok (.changed head effects)) :
    Moves lib (.act action ctx) h head effects := by
  unfold cancel at hcancel
  split at hcancel
  · cases hcancel
  · next hlive =>
    simp only [bind_eq_ok, ensure_eq_ok, exists_const] at hcancel
    exact stored_moves (.cancelled op (Bool.eq_false_iff.2 hlive) _) hcancel.2

theorem linkChecked_moves {url : String} {providerReference : Option String} {amount : Int}
    {currency : String} {now now' : Int} {sourceEventId : String}
    (creating : h.state = .creatingLink) (unlinked : ¬h.linkExists) (valid : h.approvalIsValid lib)
    (hstored : stored (linkChecked h url providerReference amount currency now).1
      (linkChecked h url providerReference amount currency now).2 now' sourceEventId =
        .ok (.changed head effects)) :
    Moves lib call h head effects := by
  revert hstored
  unfold linkChecked
  dsimp only
  split_ifs with hamount hcurrency
  · exact stored_moves (.mismatched creating unlinked _)
  · exact stored_moves (.mismatched creating unlinked _)
  · exact stored_moves (.linked creating unlinked valid _
      ⟨not_not.1 hamount, not_not.1 hcurrency⟩ _)

theorem recordCreated_changed
    (hrecord : recordCreated lib h action ctx = .ok (.changed head effects)) :
    Moves lib call h head effects := by
  simp only [recordCreated, bind_eq_ok, ensure_eq_ok, exists_const, need_eq_ok] at hrecord
  obtain ⟨⟨hcreating, -, hnone, hvalid⟩, url, -, -, amount, -, currency, -, hrecord⟩ := hrecord
  split at hrecord
  · exact linkChecked_moves hcreating hnone hvalid hrecord
  · exact stored_moves (.failed hcreating _ _ _ (.inr ⟨rfl, hnone⟩)) hrecord

theorem reportPayment_changed
    (hreport : reportPayment h action ctx = .ok (.changed head effects)) :
    Moves lib call h head effects := by
  unfold reportPayment at hreport
  split at hreport
  · cases hreport
  · simp only [bind_eq_ok, ensure_eq_ok, exists_const] at hreport
    obtain ⟨hsent, _, -, hstored⟩ := hreport
    exact stored_moves (.reported (.inl hsent) (.inl hsent) _ rfl) hstored

theorem confirmPayment_changed
    (hconfirm : confirmPayment h action ctx = .ok (.changed head effects)) :
    Moves lib call h head effects := by
  simp only [confirmPayment, bind_eq_ok, ensure_eq_ok, exists_const] at hconfirm
  obtain ⟨-, hconfirm⟩ := hconfirm
  split at hconfirm
  · cases hconfirm
  · next hopen =>
    simp only [bind_eq_ok, ensure_eq_ok, exists_const] at hconfirm
    obtain ⟨⟨hlink, hdraft, hneeds⟩, hstored⟩ := hconfirm
    refine stored_moves (.verified hlink ⟨hdraft, hneeds, fun hpaid => hopen (.inl hpaid)⟩
      (fun hverified => hopen (.inr hverified)) _ _ _ _) hstored

theorem dismissReport_changed (op : action.op = .dismissReport)
    (hdismiss : dismissReport h ctx = .ok (.changed head effects)) :
    Moves lib (.act action ctx) h head effects := by
  simp only [dismissReport, bind_eq_ok, ensure_eq_ok, exists_const] at hdismiss
  obtain ⟨-, ⟨hstate, hreported⟩, hstored⟩ := hdismiss
  exact stored_moves (.dismissed op hstate hreported) hstored

theorem retry_changed (op : action.op = .retry)
    (hretry : retry lib h ctx = .ok (.changed head effects)) :
    Moves lib (.act action ctx) h head effects := by
  simp only [retry, bind_eq_ok, ensure_eq_ok, exists_const] at hretry
  obtain ⟨-, ⟨hfailed, -⟩, hretry⟩ := hretry
  split at hretry
  · next hinvalid => exact stored_moves (.revoked op hfailed hinvalid) hretry
  next hvalid =>
  have hvalid := not_not.1 hvalid
  simp only [bind_eq_ok] at hretry
  obtain ⟨_, -, _, -, hretry⟩ := hretry
  split at hretry
  · next hlink => exact stored_moves (.resent op hfailed hvalid hlink _) hretry
  · next hnone =>
    split at hretry
    · next hroute => exact stored_moves (.retried op hfailed hvalid hnone (.api hroute)) hretry
    · next hroute => exact stored_moves (.retried op hfailed hvalid hnone (.browser hroute _)) hretry

theorem markSent_changed (op : action.op = .markSent)
    (hmark : markSent h ctx = .ok (.changed head effects)) :
    Moves lib (.act action ctx) h head effects := by
  simp only [markSent, bind_eq_ok, ensure_eq_ok, exists_const] at hmark
  obtain ⟨-, ⟨hunsent, hlink⟩, hstored⟩ := hmark
  exact stored_moves (.markedSent op hunsent hlink _) hstored

theorem applyLinkAction_changed {current : Option LinkHead}
    (happly : applyLinkAction lib current action ctx = .ok (.changed head effects)) :
    (current = none ∧ Drafted head effects) ∨
      ∃ h, current = some h ∧ Moves lib (.act action ctx) h head effects := by
  simp only [applyLinkAction, bind_eq_ok, ensure_eq_ok, exists_const] at happly
  obtain ⟨_, -, -, happly⟩ := happly
  cases current with
  | none =>
    refine .inl ⟨rfl, ?_⟩
    cases hop : action.op <;> rw [hop] at happly
    case draft => exact draft_changed happly
    all_goals cases happly
  | some h =>
    refine .inr ⟨h, rfl, ?_⟩
    cases hop : action.op <;> rw [hop] at happly
    case draft => cases happly
    case edit => exact edit_changed hop happly
    case submit => exact submit_changed hop happly
    case approve => exact approve_changed hop happly
    case reject => exact reject_changed hop happly
    case cancel => exact cancel_changed hop happly
    case recordCreated => exact recordCreated_changed happly
    case reportPayment => exact reportPayment_changed happly
    case confirmPayment => exact confirmPayment_changed happly
    case dismissReport => exact dismissReport_changed hop happly
    case retry => exact retry_changed hop happly
    case markSent => exact markSent_changed hop happly

theorem notice_changed {noticeId : Uuid} {verifiedBy : Option VerifiedBy}
    {reference : Option String} {amountMinor : Option Int} {currency : Option String}
    {paidAt now : Int} {mismatch : Option Mismatch} {sourceEventId : String}
    (hnotice : applySystem lib h
      (.notice noticeId verifiedBy reference amountMinor currency paidAt mismatch) now sourceEventId =
        .ok (.changed head effects)) :
    Moves lib call h head effects := by
  unfold applySystem at hnotice
  dsimp only at hnotice
  split at hnotice
  · cases hnotice
  next hcounts =>
  obtain ⟨hlink, htakes⟩ := not_not.1 hcounts
  split at hnotice
  · cases hnotice
  next hopen =>
  have hstate : h.state ≠ .draft ∧ h.state ≠ .needsYou ∧ h.state ≠ .paid := by
    unfold LinkHead.takesPayment at htakes
    refine ⟨fun hs => ?_, fun hs => ?_, fun hs => ?_⟩ <;>
      · rw [hs] at htakes
        cases htakes
  split at hnotice
  · exact stored_moves (.verified hlink hstate hopen _ _ _ _) hnotice
  · split at hnotice
    · cases hnotice
    · exact stored_moves (.reported (.inr ⟨hlink, htakes⟩) (.inr hopen) _ rfl) hnotice

theorem applySystem_changed {op : SystemOp} {now : Int} {sourceEventId : String}
    (happly : applySystem lib h op now sourceEventId = .ok (.changed head effects)) :
    Moves lib call h head effects := by
  cases op with
  | notice => exact notice_changed happly
  | linkCreated url providerReference amount currency =>
    simp only [applySystem] at happly
    split at happly
    · cases happly
    next hopen =>
    split at happly
    · cases happly
    next hvalid =>
    simp only [not_or, not_not] at hopen
    exact linkChecked_moves hopen.1 hopen.2 (not_not.1 hvalid) happly
  | delivered =>
    simp only [applySystem] at happly
    split at happly
    · cases happly
    split at happly
    · cases happly
    next hunsent =>
    obtain ⟨hunsent, hlink⟩ := not_not.1 hunsent
    exact stored_moves (.delivered hunsent hlink _) happly
  | deliveryFailed code reason retryable =>
    simp only [applySystem] at happly
    split at happly
    · cases happly
    next hopen =>
    simp only [not_or, not_not] at hopen
    exact stored_moves (.failed hopen.1 _ _ _ (.inl rfl)) happly
  | fail code reason retryable =>
    simp only [applySystem] at happly
    split at happly
    · cases happly
    next hcreating => exact stored_moves (.failed (not_not.1 hcreating) _ _ _ (.inl rfl)) happly
  | grantExpired =>
    simp only [applySystem] at happly
    split at happly
    · cases happly
    next hopen =>
    simp only [not_or, not_not] at hopen
    exact stored_moves (.failed hopen.1 _ _ _ (.inl rfl)) happly
  | expire =>
    simp only [applySystem] at happly
    split at happly
    · cases happly
    next hlive =>
    obtain ⟨-, hlive⟩ := not_or.1 hlive
    obtain ⟨hlive, hopen⟩ := not_or.1 hlive
    exact stored_moves (.expired (not_not.1 hlive) hopen) happly
  | evidenceRecorded paymentId evidenceEventId =>
    simp only [applySystem] at happly
    split at happly
    · cases happly
    next hunpaid =>
    split at happly
    · cases happly
    next hverified => exact stored_moves (.recorded hunpaid (not_not.1 hverified) _ _) happly
  | evidencePending reason =>
    simp only [applySystem] at happly
    split at happly
    · cases happly
    next hwaiting =>
    simp only [not_or, not_not] at hwaiting
    exact stored_moves (.pending hwaiting.1 hwaiting.2 _) happly

theorem Call.apply_changed {current : Option LinkHead}
    (happly : call.apply lib current = .ok (.changed head effects)) :
    (current = none ∧ Drafted head effects) ∨
      ∃ h, current = some h ∧ Moves lib call h head effects := by
  cases call with
  | act action ctx => exact applyLinkAction_changed happly
  | system op now sourceEventId =>
    cases current with
    | none => cases happly
    | some h => exact .inr ⟨h, rfl, applySystem_changed happly⟩

end Colony.Money
