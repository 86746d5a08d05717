import Colony.Defs.Money.Base

namespace Colony.Money

open Colony.Core

def DAY_SECS : Int := 86400

inductive LinkState
  | draft
  | needsYou
  | creatingLink
  | sent
  | paymentReported
  | paid
  | expired
  | cancelled
  | failed
  deriving DecidableEq

def LinkState.isTerminal : LinkState → Bool
  | .paid | .expired | .cancelled => true
  | _ => false

structure Approval where
  approvedBy : String
  approvedAt : Int
  digest : String
  headEventId : String
  deriving DecidableEq

structure BrowserGrant where
  host : String
  fromAt : Int
  untilAt : Int
  usedAt : Option Int
  deriving DecidableEq

structure CreatedLink where
  url : String
  providerReference : Option String
  createdAt : Int
  shownAmountMinor : Int
  shownCurrency : String
  checkedAt : Int
  deriving DecidableEq

inductive DeliveryState
  | pending
  | sent
  | manual
  | failed
  deriving DecidableEq

structure Delivery where
  channel : RecipientChannel
  state : DeliveryState
  sentAt : Option Int
  deriving DecidableEq

inductive PaymentState
  | reported
  | verified
  deriving DecidableEq

inductive PaymentSource
  | hmac
  | lookup
  | ownerTick
  | report
  | notice
  deriving DecidableEq

inductive VerifiedBy
  | hmac
  | lookup
  deriving DecidableEq

inductive Mismatch
  | amount
  | currency
  deriving DecidableEq

structure PaymentInfo where
  state : PaymentState
  source : PaymentSource
  reference : Option String
  amountMinor : Option Int
  currency : Option String
  paidAt : Int
  noticeId : Option Uuid
  paymentId : Option Uuid
  evidenceEventId : Option String
  mismatch : Option Mismatch
  deriving DecidableEq

structure Failure where
  code : String
  reason : String
  retryable : Bool
  failedAt : Int
  deriving DecidableEq

structure LinkHead where
  schemaVersion : Nat
  linkId : Uuid
  cardRef : String
  version : Nat
  state : LinkState
  partyId : String
  clientId : Uuid
  invoiceId : Uuid
  invoiceNumber : String
  customerName : String
  amountMinor : Int
  currency : String
  purpose : String
  connectionId : Uuid
  providerLabel : String
  route : Route
  recipientRef : Uuid
  recipientChannel : RecipientChannel
  recipientName : String
  recipientDisplay : String
  message : String
  messageHash : String
  expiresInDays : Nat
  expiresAt : Option Int
  waitingFor : Option String
  draftedBy : String
  draftedAt : Int
  approval : Option Approval
  approvalVoided : Bool
  browserGrant : Option BrowserGrant
  link : Option CreatedLink
  delivery : Option Delivery
  payment : Option PaymentInfo
  failure : Option Failure
  cancelReason : Option String
  updatedAt : Int
  sourceEventId : String
  deriving DecidableEq

structure DigestFacts where
  linkId : Uuid
  invoiceId : Uuid
  amountMinor : Int
  currency : String
  connectionId : Uuid
  recipientRef : Uuid
  messageHash : String
  expiresInDays : Nat
  deriving DecidableEq

def DigestFacts.toJson (lib : Libs) (f : DigestFacts) : String :=
  "\x7b\"linkId\":" ++ lib.jsonString f.linkId.toText ++
    ",\"invoiceId\":" ++ lib.jsonString f.invoiceId.toText ++
    ",\"amountMinor\":" ++ toString f.amountMinor ++
    ",\"currency\":" ++ lib.jsonString f.currency ++
    ",\"connectionId\":" ++ lib.jsonString f.connectionId.toText ++
    ",\"recipientRef\":" ++ lib.jsonString f.recipientRef.toText ++
    ",\"messageHash\":" ++ lib.jsonString f.messageHash ++
    ",\"expiresInDays\":" ++ toString f.expiresInDays ++ "\x7d"

namespace LinkHead

def digestFacts (head : LinkHead) : DigestFacts where
  linkId := head.linkId
  invoiceId := head.invoiceId
  amountMinor := head.amountMinor
  currency := head.currency
  connectionId := head.connectionId
  recipientRef := head.recipientRef
  messageHash := head.messageHash
  expiresInDays := head.expiresInDays

def approvalDigest (lib : Libs) (head : LinkHead) : String := lib.sha256Hex (head.digestFacts.toJson lib)

def approvalIsValid (lib : Libs) (head : LinkHead) : Prop :=
  ∃ approval ∈ head.approval, approval.digest = head.approvalDigest lib

instance (lib : Libs) (head : LinkHead) : Decidable (head.approvalIsValid lib) :=
  inferInstanceAs (Decidable (∃ approval ∈ head.approval, _))

def linkExists (head : LinkHead) : Prop := head.link.isSome = true

instance (head : LinkHead) : Decidable head.linkExists := inferInstanceAs (Decidable (_ = true))

def touch (head : LinkHead) (now : Int) (sourceEventId : String) : LinkHead :=
  { head with version := min (head.version + 1) (2 ^ 32 - 1), updatedAt := now, sourceEventId }

def voidApproval (head : LinkHead) : LinkHead :=
  { head with
    approvalVoided := head.approval.isSome || head.approvalVoided
    approval := none
    browserGrant := none }

def paymentIs (head : LinkHead) (s : PaymentState) : Prop := ∃ payment ∈ head.payment, payment.state = s

instance (head : LinkHead) (s : PaymentState) : Decidable (head.paymentIs s) :=
  inferInstanceAs (Decidable (∃ payment ∈ head.payment, _))

end LinkHead

inductive LinkOp
  | draft
  | edit
  | submit
  | approve
  | reject
  | cancel
  | recordCreated
  | reportPayment
  | confirmPayment
  | dismissReport
  | retry
  | markSent
  deriving DecidableEq

structure RecipientInput where
  channel : RecipientChannel
  address : String
  name : String
  deriving DecidableEq

structure ApprovalFacts where
  invoiceId : Uuid
  amountMinor : Int
  currency : String
  connectionId : Uuid
  recipientRef : Uuid
  message : String
  expiresInDays : Nat
  deriving DecidableEq

def LinkHead.facts (head : LinkHead) : ApprovalFacts where
  invoiceId := head.invoiceId
  amountMinor := head.amountMinor
  currency := head.currency
  connectionId := head.connectionId
  recipientRef := head.recipientRef
  message := head.message
  expiresInDays := head.expiresInDays

inductive ReportSource
  | dashboard
  | gmail
  | clientMessage
  deriving DecidableEq

structure LinkAction where
  op : LinkOp
  linkId : Uuid
  schemaVersion : Nat := MONEY_RAILS_SCHEMA_VERSION
  expectedHeadEventId : Option String := none
  partyId : Option String := none
  invoiceId : Option Uuid := none
  amountMinor : Option Int := none
  currency : Option String := none
  purpose : Option String := none
  connectionId : Option Uuid := none
  recipient : Option RecipientInput := none
  message : Option String := none
  expiresInDays : Option Nat := none
  facts : Option ApprovalFacts := none
  reason : Option String := none
  note : Option String := none
  url : Option String := none
  providerReference : Option String := none
  shownAmountMinor : Option Int := none
  shownCurrency : Option String := none
  source : Option ReportSource := none

structure LinkActor where
  pubkey : String
  role : ActorRole
  deriving DecidableEq

inductive InvoiceStatus
  | draft
  | issued
  | void
  deriving DecidableEq

structure InvoiceFacts where
  status : InvoiceStatus
  currency : String
  totalMinor : Int
  outstandingMinor : Int
  number : String
  clientId : Uuid
  customerName : String

structure ConnectionFacts where
  connectionId : Uuid
  label : String
  route : Route
  status : ConnectionStatus
  hasCreateRecipe : Bool
  browserHost : Option String

structure LinkContext where
  now : Int
  actor : LinkActor
  invoice : Option InvoiceFacts
  connection : Option ConnectionFacts
  actionEventId : String
  newRecipientRef : Uuid

inductive LinkEffect
  | putRecipient (recipientRef : Uuid) (channel : RecipientChannel) (address name : String)
  | queueCreate
  | queueSend
  | cancelJobs
  | wakeBrowser
  | writeEvidence (source : PaymentSource) (reference : Option String) (amountMinor : Int)
      (currency : String) (paidAt : Int) (noticeId : Option Uuid)
  deriving DecidableEq

inductive LinkChange
  | unchanged (message : String)
  | changed (head : LinkHead) (effects : List LinkEffect)
  deriving DecidableEq

def stored (head : LinkHead) (effects : List LinkEffect) (now : Int) (sourceEventId : String) :
    Except MoneyError LinkChange :=
  .ok (.changed (head.touch now sourceEventId) effects)

def messageOk (message : String) : Bool :=
  let placeholder := "\x7blink\x7d".toList
  !message.toList.isEmpty && message.toList.length ≤ MAX_MESSAGE_CHARS &&
    !(message.toList.any fun c => isControl c && c != '\n') &&
    (message.toList.tails.filter placeholder.isPrefixOf).length == 1

def partyIdOk (partyId : String) : Bool :=
  !partyId.toList.isEmpty && partyId.utf8ByteSize ≤ 128 &&
    partyId.toList.all fun c => isAsciiAlphanumeric c || c == '-' || c == '_' || c == ':'

namespace LinkAction

def validate (action : LinkAction) : Except MoneyError Unit := do
  ensure (action.schemaVersion = MONEY_RAILS_SCHEMA_VERSION)
    (MoneyError.invalid "schema_version" "unsupported schema version")
  ensure (action.op = .draft ∨ action.expectedHeadEventId.isSome = true)
    (MoneyError.invalid "expected_head_required" "name the head you saw (expectedHeadEventId)")
  ensure (∀ expected ∈ action.expectedHeadEventId, isHexId expected = true)
    (MoneyError.invalid "expected_head_required" "expectedHeadEventId must be a 64 character hex id")
  ensure (∀ text ∈ action.reason.toList ++ action.note.toList, cleanText text 300 = true)
    (MoneyError.invalid "money_invalid_input" "a reason or note must be 1 to 300 characters")

end LinkAction

def checkFields (head : LinkHead) : Except MoneyError Unit := do
  ensure (0 < head.amountMinor ∧ head.amountMinor ≤ MAX_AMOUNT_MINOR)
    (MoneyError.invalid "money_invalid_input" "amount must be more than zero")
  ensure (validCurrency head.currency = true)
    (MoneyError.invalid "money_invalid_input" "currency must be a three letter code such as ZAR")
  ensure (cleanText head.purpose MAX_SHORT_TEXT_CHARS = true)
    (MoneyError.invalid "money_invalid_input" "say what the payment is for, up to 200 characters")
  ensure (messageOk head.message = true)
    (MoneyError.invalid "money_invalid_input"
      "the message must contain \x7blink\x7d exactly once and be up to 1000 characters")
  ensure (1 ≤ head.expiresInDays ∧ head.expiresInDays ≤ MAX_EXPIRES_DAYS)
    (MoneyError.invalid "money_invalid_input" "the link life must be 1 to 90 days")
  ensure (cleanText head.recipientName 100 = true)
    (MoneyError.invalid "money_invalid_input" "the recipient needs a name, up to 100 characters")
  ensure (partyIdOk head.partyId = true)
    (MoneyError.invalid "money_invalid_input" "partyId is not valid")

def checkInvoice (head : LinkHead) (invoice : Option InvoiceFacts) (forApproval : Bool) :
    Except MoneyError Unit := do
  let invoice ← orRefuse invoice
    (MoneyError.conflict "no_issued_invoice" "the invoice for this card was not found")
  ensure (invoice.status ≠ .void)
    (MoneyError.conflict "invoice_void" "the invoice was voided, so it cannot take a payment link")
  ensure (forApproval = true → invoice.status = .issued)
    (MoneyError.conflict "no_issued_invoice"
      "issue the invoice first: a payment is recorded against an issued invoice")
  ensure (invoice.currency = head.currency)
    (MoneyError.invalid "currency_mismatch" "the card currency must match the invoice currency")
  let cap := if invoice.status = .issued then invoice.outstandingMinor else invoice.totalMinor
  ensure (head.amountMinor ≤ cap)
    (MoneyError.invalid "amount_exceeds_outstanding"
      "the amount is more than the invoice still has to collect")

def checkConnection (head : LinkHead) (connection : Option ConnectionFacts) (forApproval : Bool) :
    Except MoneyError Unit := do
  let connection ← orRefuse connection
    (MoneyError.conflict "connection_missing" "the payment provider was not found")
  ensure (connection.connectionId = head.connectionId)
    (MoneyError.conflict "connection_missing"
      "the payment provider on the card is not the one that was loaded")
  ensure (connection.status = .connected)
    (MoneyError.conflict "connection_not_ready" "the payment provider is not connected")
  ensure (forApproval = true → connection.route = .api → connection.hasCreateRecipe = true)
    (MoneyError.conflict "recipe_missing" "approve a create link recipe for this provider first")
  ensure (forApproval = true → connection.route = .browser → connection.browserHost.isSome = true)
    (MoneyError.conflict "browser_host_missing"
      "this provider has no dashboard host for the browser route")

def mayEditOwn (actor : LinkActor) (head : LinkHead) : Bool :=
  actor.role.isOwnerAdmin ||
    (actor.role == .ownedAgent && head.draftedBy == actor.pubkey && head.approval.isNone &&
      (head.state == .draft || head.state == .needsYou))

def RecipientInput.normalized (input : RecipientInput) : Except MoneyError String :=
  match input.channel with
  | .whatsapp =>
    orRefuse (normalizeWhatsapp input.address)
      (MoneyError.invalid "money_invalid_input" "the WhatsApp number must have 6 to 15 digits")
  | .email =>
    orRefuse (if validEmail input.address then some (trim input.address) else none)
      (MoneyError.invalid "money_invalid_input" "the email address is not valid")

def recipientEffect (input : RecipientInput) (recipientRef : Uuid) :
    Except MoneyError (LinkEffect × String) := do
  let address ← input.normalized
  return (.putRecipient recipientRef input.channel address input.name,
    maskRecipient input.channel address)

def failHead (head : LinkHead) (code reason : String) (retryable : Bool) (now : Int) : LinkHead :=
  { head with state := .failed, failure := some ⟨code, reason, retryable, now⟩ }

def grantFor (ctx : LinkContext) : BrowserGrant where
  host := (ctx.connection.bind ConnectionFacts.browserHost).getD ""
  fromAt := ctx.now
  untilAt := ctx.now + BROWSER_GRANT_SECS
  usedAt := none

section Commands

variable (lib : Libs)

def draft (action : LinkAction) (ctx : LinkContext) : Except MoneyError LinkChange := do
  let invoiceId ← need action.invoiceId "invoiceId"
  let recipient ← need action.recipient "recipient"
  let invoice ← orRefuse ctx.invoice
    (MoneyError.conflict "no_issued_invoice" "the invoice for this card was not found")
  let connection ← orRefuse ctx.connection
    (MoneyError.conflict "connection_missing" "connect a payment provider first, or name one")
  let (putRecipient, recipientDisplay) ← recipientEffect recipient ctx.newRecipientRef
  let message ← need action.message "message"
  let partyId ← need action.partyId "partyId"
  let amountMinor ← need action.amountMinor "amountMinor"
  let currency ← need action.currency "currency"
  let purpose ← need action.purpose "purpose"
  let head : LinkHead := {
    schemaVersion := MONEY_RAILS_SCHEMA_VERSION
    linkId := action.linkId
    cardRef := lib.cardRef action.linkId
    version := 1
    state := if invoice.status = .issued then .needsYou else .draft
    partyId
    clientId := invoice.clientId
    invoiceId
    invoiceNumber := invoice.number
    customerName := invoice.customerName
    amountMinor
    currency
    purpose
    connectionId := connection.connectionId
    providerLabel := connection.label
    route := connection.route
    recipientRef := ctx.newRecipientRef
    recipientChannel := recipient.channel
    recipientName := recipient.name
    recipientDisplay
    message
    messageHash := lib.sha256Hex message
    expiresInDays := action.expiresInDays.getD DEFAULT_EXPIRES_DAYS
    expiresAt := none
    waitingFor := if invoice.status = .issued then none else some "invoice_issue"
    draftedBy := ctx.actor.pubkey
    draftedAt := ctx.now
    approval := none
    approvalVoided := false
    browserGrant := none
    link := none
    delivery := none
    payment := none
    failure := none
    cancelReason := none
    updatedAt := ctx.now
    sourceEventId := ctx.actionEventId }
  checkFields head
  checkInvoice head (some invoice) false
  checkConnection head (some connection) false
  return .changed head [putRecipient]

namespace LinkHead

def editable (head : LinkHead) : Bool :=
  match head.state with
  | .draft | .needsYou => true
  | .creatingLink | .failed => !head.linkExists
  | _ => false

def withFields (head : LinkHead) (action : LinkAction) (ctx : LinkContext) : LinkHead :=
  { head with
    invoiceId := action.invoiceId.getD head.invoiceId
    partyId := action.partyId.getD head.partyId
    amountMinor := action.amountMinor.getD head.amountMinor
    currency := action.currency.getD head.currency
    purpose := action.purpose.getD head.purpose
    expiresInDays := action.expiresInDays.getD head.expiresInDays
    message := action.message.getD head.message
    messageHash := (action.message.map lib.sha256Hex).getD head.messageHash
    connectionId := action.connectionId.getD head.connectionId
    providerLabel := match action.connectionId, ctx.connection with
      | some _, some connection => connection.label
      | _, _ => head.providerLabel
    route := match action.connectionId, ctx.connection with
      | some _, some connection => connection.route
      | _, _ => head.route }

def withRecipient (head : LinkHead) (action : LinkAction) (ctx : LinkContext) :
    Except MoneyError (LinkHead × List LinkEffect) :=
  match action.recipient with
  | none => .ok (head, [])
  | some recipient => do
    let (effect, display) ← recipientEffect recipient ctx.newRecipientRef
    return ({ head with
      recipientRef := ctx.newRecipientRef
      recipientChannel := recipient.channel
      recipientName := recipient.name
      recipientDisplay := display }, [effect])

def withInvoice (head : LinkHead) : Option InvoiceFacts → LinkHead
  | none => head
  | some invoice =>
    { head with
      clientId := invoice.clientId
      invoiceNumber := invoice.number
      customerName := invoice.customerName }

def reopened (head : LinkHead) : LinkHead × List LinkEffect :=
  if head.approval.isSome = true ∨ head.state = .creatingLink then
    ({ head.voidApproval with state := .needsYou, expiresAt := none, failure := none }, [.cancelJobs])
  else if head.state = .failed then ({ head with state := .needsYou, failure := none }, [])
  else ({ head with failure := none }, [])

end LinkHead

def edit (current : LinkHead) (action : LinkAction) (ctx : LinkContext) :
    Except MoneyError LinkChange := do
  ensure (current.editable = true)
    (MoneyError.conflict "card_locked"
      "the link already exists or the card is finished: cancel it and draft a new card")
  ensure (mayEditOwn ctx.actor current = true)
    (MoneyError.forbidden "money_forbidden"
      "only the owner or an admin can change a card after it was approved or drafted by someone else")
  let (head, effects) ← (current.withFields lib action ctx).withRecipient action ctx
  checkFields head
  let head := head.withInvoice ctx.invoice
  checkInvoice head ctx.invoice false
  checkConnection head ctx.connection false
  let (head, cancelled) := head.reopened
  stored head (effects ++ cancelled) ctx.now ctx.actionEventId

def submit (current : LinkHead) (ctx : LinkContext) : Except MoneyError LinkChange := do
  ensure (current.state = .draft)
    (MoneyError.conflict "card_locked" "only a draft can be sent to the owner")
  ensure (mayEditOwn ctx.actor current = true)
    (MoneyError.forbidden "money_forbidden" "only the drafter or the owner can send this draft on")
  checkInvoice current ctx.invoice true
  checkConnection current ctx.connection false
  stored { current with state := .needsYou, waitingFor := none } [] ctx.now ctx.actionEventId

def approve (current : LinkHead) (action : LinkAction) (ctx : LinkContext) :
    Except MoneyError LinkChange := do
  ensure (ctx.actor.role.isOwnerAdmin = true)
    (MoneyError.forbidden "money_forbidden" "only the owner or an admin can approve a payment link")
  ensure (current.state = .needsYou)
    (MoneyError.conflict "card_not_waiting" "this card is not waiting for approval")
  let facts ← need action.facts "facts"
  let headId ← need action.expectedHeadEventId "expectedHeadEventId"
  ensure (facts = current.facts)
    (MoneyError.conflict "approval_facts_changed"
      "the card changed after you looked at it; review it again")
  checkFields current
  checkInvoice current ctx.invoice true
  checkConnection current ctx.connection true
  let head := { current with
    approval := some ⟨ctx.actor.pubkey, ctx.now, current.approvalDigest lib, headId⟩
    approvalVoided := false
    state := .creatingLink
    failure := none
    expiresAt := some (ctx.now + current.expiresInDays * DAY_SECS) }
  match head.route with
  | .api => stored head [.queueCreate] ctx.now ctx.actionEventId
  | .browser =>
    stored { head with browserGrant := some (grantFor ctx) } [.wakeBrowser] ctx.now ctx.actionEventId

def reject (current : LinkHead) (action : LinkAction) (ctx : LinkContext) :
    Except MoneyError LinkChange := do
  ensure (ctx.actor.role.isOwnerAdmin = true)
    (MoneyError.forbidden "money_forbidden" "only the owner or an admin can reject a card")
  ensure (current.state = .draft ∨ current.state = .needsYou)
    (MoneyError.conflict "card_not_waiting"
      "only a card that is waiting for approval can be rejected")
  let reason ← need action.reason "reason"
  stored { current with
    state := .cancelled
    cancelReason := some reason
    approval := none
    browserGrant := none } [.cancelJobs] ctx.now ctx.actionEventId

def cancel (current : LinkHead) (action : LinkAction) (ctx : LinkContext) :
    Except MoneyError LinkChange :=
  if current.state.isTerminal = true then .ok (.unchanged "card is already finished")
  else do
    ensure (mayEditOwn ctx.actor current = true)
      (MoneyError.forbidden "money_forbidden"
        "only the owner or an admin can cancel a card after it was approved")
    stored { current with
      state := .cancelled
      cancelReason := some (action.reason.getD "Cancelled")
      browserGrant := none } [.cancelJobs] ctx.now ctx.actionEventId

/-- What differs between the link and the card stops the flow and goes back to the owner. -/
def linkChecked (head : LinkHead) (url : String) (providerReference : Option String)
    (shownAmountMinor : Int) (shownCurrency : String) (now : Int) : LinkHead × List LinkEffect :=
  let mismatch :=
    if shownAmountMinor ≠ head.amountMinor then
      some ("amount_mismatch", "The link shows a different amount than the card.")
    else if shownCurrency ≠ head.currency then
      some ("currency_shown_mismatch", "The link shows a different currency than the card.")
    else none
  match mismatch with
  | some (code, reason) =>
    ({ head.voidApproval with
      state := .needsYou
      expiresAt := none
      failure := some ⟨code,
        reason ++ " Nothing was sent. Check the provider and approve again.", false, now⟩ },
      [.cancelJobs])
  | none =>
    ({ head with
      link := some ⟨url, providerReference, now, shownAmountMinor, shownCurrency, now⟩
      delivery := some ⟨head.recipientChannel, .pending, none⟩
      failure := none }, [.queueSend])

def httpsUrl (url : String) : Bool :=
  ((lib.parseUrl url).any fun parsed =>
    parsed.scheme == "https" && parsed.host.isSome && parsed.username.toList.isEmpty &&
      parsed.password.isNone) && url.utf8ByteSize ≤ 2048

def browserGrantExpired : String :=
  "The 15 minute window for the browser step ran out. Try again when you are at your Mac."

def recordCreated (current : LinkHead) (action : LinkAction) (ctx : LinkContext) :
    Except MoneyError LinkChange := do
  ensure (current.state = .creatingLink ∧ current.route = .browser ∧ ¬current.linkExists ∧
      current.approvalIsValid lib)
    (MoneyError.conflict "card_not_creating" "this card is not waiting for a link from the browser")
  let url ← need action.url "url"
  ensure (httpsUrl lib url = true)
    (MoneyError.invalid "money_invalid_input" "the link must be a plain https URL")
  let shownAmount ← need action.shownAmountMinor "shownAmountMinor"
  let shownCurrency ← need action.shownCurrency "shownCurrency"
  if ∃ grant ∈ current.browserGrant, ctx.now < grant.untilAt then
    let (head, effects) :=
      linkChecked current url action.providerReference shownAmount shownCurrency ctx.now
    stored head effects ctx.now ctx.actionEventId
  else
    stored (failHead current "browser_grant_expired" browserGrantExpired true ctx.now) [.cancelJobs]
      ctx.now ctx.actionEventId

def reportPayment (current : LinkHead) (action : LinkAction) (ctx : LinkContext) :
    Except MoneyError LinkChange :=
  if current.state = .paymentReported then .ok (.unchanged "a payment is already reported")
  else do
    ensure (current.state = .sent)
      (MoneyError.conflict "card_not_sent" "a payment can be reported once the link was sent")
    let _ ← need action.source "source"
    let mismatch :=
      if ∃ amount ∈ action.amountMinor, amount ≠ current.amountMinor then some Mismatch.amount
      else if ∃ currency ∈ action.currency, currency ≠ current.currency then some Mismatch.currency
      else none
    stored { current with
      state := .paymentReported
      payment := some {
        state := .reported
        source := .report
        reference := action.providerReference
        amountMinor := action.amountMinor
        currency := action.currency
        paidAt := ctx.now
        noticeId := none
        paymentId := none
        evidenceEventId := none
        mismatch } } [] ctx.now ctx.actionEventId

namespace LinkHead

def verifiedBy (head : LinkHead) (source : PaymentSource) (reference : Option String)
    (paidAt : Int) (noticeId : Option Uuid) : LinkHead × List LinkEffect :=
  ({ head with
      state := .paymentReported
      failure := none
      payment := some {
        state := .verified
        source
        reference
        amountMinor := some head.amountMinor
        currency := some head.currency
        paidAt
        noticeId
        paymentId := none
        evidenceEventId := none
        mismatch := none } },
    [.writeEvidence source reference head.amountMinor head.currency paidAt noticeId])

end LinkHead

def confirmPayment (current : LinkHead) (action : LinkAction) (ctx : LinkContext) :
    Except MoneyError LinkChange := do
  ensure (ctx.actor.role.isOwnerAdmin = true)
    (MoneyError.forbidden "money_forbidden" "only the owner or an admin can confirm a payment")
  if current.state = .paid ∨ current.paymentIs .verified then
    return .unchanged "this payment is already confirmed"
  else
    ensure (current.linkExists ∧ current.state ≠ .draft ∧ current.state ≠ .needsYou)
      (MoneyError.conflict "card_not_sent" "a payment can be confirmed once the link has gone out")
    let reference := action.providerReference.or (current.link.bind CreatedLink.providerReference)
    let (head, effects) := current.verifiedBy .ownerTick reference ctx.now none
    stored head effects ctx.now ctx.actionEventId

def dismissReport (current : LinkHead) (ctx : LinkContext) : Except MoneyError LinkChange := do
  ensure (ctx.actor.role.isOwnerAdmin = true)
    (MoneyError.forbidden "money_forbidden"
      "only the owner or an admin can dismiss a payment report")
  ensure (current.state = .paymentReported ∧ current.paymentIs .reported)
    (MoneyError.conflict "card_not_reported" "there is no unconfirmed payment report on this card")
  stored { current with state := .sent, payment := none } [] ctx.now ctx.actionEventId

def retry (current : LinkHead) (ctx : LinkContext) : Except MoneyError LinkChange := do
  ensure (ctx.actor.role.isOwnerAdmin = true)
    (MoneyError.forbidden "money_forbidden" "only the owner or an admin can try a card again")
  ensure (current.state = .failed ∧ ∃ failure ∈ current.failure, failure.retryable = true)
    (MoneyError.conflict "card_not_retryable" "this card cannot be tried again")
  if ¬current.approvalIsValid lib then
    stored { current.voidApproval with state := .needsYou, failure := none } [.cancelJobs]
      ctx.now ctx.actionEventId
  else
    checkInvoice current ctx.invoice true
    checkConnection current ctx.connection true
    let head := { current with failure := none, state := .creatingLink }
    if current.linkExists then
      stored { head with delivery := head.delivery.map fun d => { d with state := .pending } }
        [.queueSend] ctx.now ctx.actionEventId
    else match head.route with
      | .api => stored head [.queueCreate] ctx.now ctx.actionEventId
      | .browser =>
        stored { head with browserGrant := some (grantFor ctx) } [.wakeBrowser]
          ctx.now ctx.actionEventId

def markSent (current : LinkHead) (ctx : LinkContext) : Except MoneyError LinkChange := do
  ensure (ctx.actor.role.isOwnerAdmin = true)
    (MoneyError.forbidden "money_forbidden" "only the owner or an admin can mark a link as sent")
  ensure ((current.state = .creatingLink ∨ current.state = .failed) ∧ current.linkExists)
    (MoneyError.conflict "card_not_sendable" "there is no created link waiting to be sent")
  stored { current with
    state := .sent
    failure := none
    delivery := some ⟨current.recipientChannel, .manual, some ctx.now⟩ } [.cancelJobs]
    ctx.now ctx.actionEventId

def applyLinkAction (current : Option LinkHead) (action : LinkAction) (ctx : LinkContext) :
    Except MoneyError LinkChange := do
  action.validate
  ensure (ctx.actor.role.mayPrepare = true)
    (MoneyError.forbidden "money_forbidden"
      "only the owner, an admin or their agent can work on payment link cards")
  match action.op, current with
  | .draft, none => draft lib action ctx
  | .draft, some _ =>
    .error (MoneyError.conflict "card_exists" "a card with this id already exists")
  | _, none =>
    .error (MoneyError.conflict "card_missing" "there is no payment link card with this id")
  | .edit, some current => edit lib current action ctx
  | .submit, some current => submit current ctx
  | .approve, some current => approve lib current action ctx
  | .reject, some current => reject current action ctx
  | .cancel, some current => cancel current action ctx
  | .recordCreated, some current => recordCreated lib current action ctx
  | .reportPayment, some current => reportPayment current action ctx
  | .confirmPayment, some current => confirmPayment current action ctx
  | .dismissReport, some current => dismissReport current ctx
  | .retry, some current => retry lib current ctx
  | .markSent, some current => markSent current ctx

inductive SystemOp
  | linkCreated (url : String) (providerReference : Option String) (shownAmountMinor : Int)
      (shownCurrency : String)
  | delivered
  | deliveryFailed (code reason : String) (retryable : Bool)
  | fail (code reason : String) (retryable : Bool)
  | grantExpired
  | expire
  | notice (noticeId : Uuid) (verifiedBy : Option VerifiedBy) (reference : Option String)
      (amountMinor : Option Int) (currency : Option String) (paidAt : Int)
      (mismatch : Option Mismatch)
  | evidenceRecorded (paymentId : Uuid) (evidenceEventId : String)
  | evidencePending (reason : String)

def VerifiedBy.source : VerifiedBy → PaymentSource
  | .hmac => .hmac
  | .lookup => .lookup

namespace LinkHead

def takesPayment (head : LinkHead) : Bool :=
  match head.state with
  | .creatingLink | .sent | .paymentReported | .failed | .expired | .cancelled => true
  | .draft | .needsYou | .paid => false

end LinkHead

def applySystem (current : LinkHead) (op : SystemOp) (now : Int) (sourceEventId : String) :
    Except MoneyError LinkChange :=
  match op with
  | .linkCreated url providerReference shownAmountMinor shownCurrency =>
    if current.state ≠ .creatingLink ∨ current.linkExists then
      .ok (.unchanged "the link was already recorded")
    else if ¬current.approvalIsValid lib then
      .error (MoneyError.conflict "approval_missing"
        "the card has no valid approval, so no link is accepted")
    else
      let (head, effects) :=
        linkChecked current url providerReference shownAmountMinor shownCurrency now
      stored head effects now sourceEventId
  | .delivered =>
    if current.state = .sent then .ok (.unchanged "already sent")
    else if ¬((current.state = .creatingLink ∨ current.state = .failed) ∧ current.linkExists) then
      .ok (.unchanged "nothing was waiting to be sent")
    else
      stored { current with
        state := .sent
        failure := none
        delivery := some ⟨current.recipientChannel, .sent, some now⟩ } [] now sourceEventId
  | .deliveryFailed code reason retryable =>
    if current.state ≠ .creatingLink ∨ ¬current.linkExists then
      .ok (.unchanged "nothing was waiting to be sent")
    else
      let head := { current with delivery := current.delivery.map fun d => { d with state := .failed } }
      stored (failHead head code reason retryable now) [] now sourceEventId
  | .fail code reason retryable =>
    if current.state ≠ .creatingLink then .ok (.unchanged "the card is not being created")
    else stored (failHead current code reason retryable now) [] now sourceEventId
  | .grantExpired =>
    if current.state ≠ .creatingLink ∨ current.linkExists ∨
        ¬∃ grant ∈ current.browserGrant, grant.untilAt ≤ now then
      .ok (.unchanged "the browser window is still open")
    else
      stored { failHead current "browser_grant_expired" browserGrantExpired true now with
        browserGrant := none } [] now sourceEventId
  | .expire =>
    if ¬(∃ expiresAt ∈ current.expiresAt, expiresAt ≤ now) ∨
        ¬(current.state = .sent ∨ current.state = .paymentReported) ∨
        current.paymentIs .verified then
      .ok (.unchanged "the link is not due to expire")
    else stored { current with state := .expired } [] now sourceEventId
  | .notice noticeId verifiedBy reference amountMinor currency paidAt mismatch =>
    if ¬(current.linkExists ∧ current.takesPayment = true) then
      .ok (.unchanged "the card cannot take a payment now")
    else if current.paymentIs .verified then
      .ok (.unchanged "this payment is already confirmed")
    else match verifiedBy, mismatch with
      | some method, none =>
        let (head, effects) := current.verifiedBy method.source reference paidAt (some noticeId)
        stored head effects now sourceEventId
      | _, mismatch =>
        if current.state = .paymentReported ∧ current.payment.isSome = true then
          .ok (.unchanged "a payment is already reported")
        else
          stored { current with
            state := .paymentReported
            payment := some {
              state := .reported
              source := .notice
              reference
              amountMinor
              currency
              paidAt
              noticeId := some noticeId
              paymentId := none
              evidenceEventId := none
              mismatch } } [] now sourceEventId
  | .evidenceRecorded paymentId evidenceEventId =>
    if current.state = .paid then .ok (.unchanged "already paid")
    else if ¬current.paymentIs .verified then
      .error (MoneyError.conflict "payment_not_verified"
        "evidence is only recorded for a verified payment")
    else
      stored { current with
        state := .paid
        failure := none
        payment := current.payment.map fun payment => { payment with
          paymentId := some paymentId
          evidenceEventId := some evidenceEventId } } [] now sourceEventId
  | .evidencePending reason =>
    if current.state ≠ .paymentReported ∨ ¬current.paymentIs .verified then
      .ok (.unchanged "no payment is waiting to be recorded")
    else
      stored { current with failure := some ⟨"evidence_pending", reason, false, now⟩ } []
        now sourceEventId

end Commands

end Colony.Money
