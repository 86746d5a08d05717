import Colony.Defs.Money.JobLaws

/-! The job runner.  A worker holds one claimed job; between two of its calls it is in a
phase, and a move is its next call with what it is answered.  Workers, member commands and
payment notices interleave freely, and a worker may stop at any point. -/

namespace Colony.Money

open Colony.Core Colony.Data

def MAX_ATTEMPTS : Nat := 6
def MAX_SEND_POLLS : Nat := 150
def MAX_EVIDENCE_ATTEMPTS : Nat := 100
def MAX_JOB_ATTEMPTS : Nat := 60

def backoffSecs (attempts : Nat) : Int := min (15 * 2 ^ min (attempts - 1) 6) 900

structure RunFailure where
  code : String
  reason : String
  retryable : Bool

inductive EvidenceResult
  | recorded (paymentId : Uuid) (eventId : String)
  | failed (reason : String) (retryable : Bool)

inductive Enqueued
  | queued
  | draft
  | duplicate

structure WhatsappAnswers where
  found : Option Bool
  readsActor : String → Bool
  enqueued : Except String Enqueued
  foundAgain : Option Bool
  state : Option (Option String)

structure EmailAnswers where
  configured : Bool
  -- The status of the answer, if one came.
  response : Option Nat

structure SendAnswers where
  -- The recipient's row; the outer `none` is a lookup that failed.
  recipient : Option (Option String)
  whatsapp : WhatsappAnswers
  email : EmailAnswers

inductive Sending
  | delivered
  | failed (code reason : String) (retryable : Bool)
  | later (delaySecs : Int)
  | error

def messageState (attempts : Nat) : String → Sending
  | "sent" | "delivered" | "read" => .delivered
  | "failed" | "rejected" | "dropped" | "skipped" => .failed "message_failed"
      "WhatsApp did not send the message. The link was created, so you can send it by hand and mark it sent."
      false
  | "unconfirmed" => .failed "message_failed"
      "The send was not confirmed and will NOT be sent again. Check the phone, then mark it sent if it went out."
      false
  | _ =>
    if MAX_SEND_POLLS ≤ attempts then
      .failed "message_failed"
        "The message is still waiting to be sent. Check WhatsApp, or send the link by hand and mark it sent."
        true
    else .later 10

def sendWhatsapp (payload : Payload) (attempts : Nat) (answers : WhatsappAnswers) : Sending :=
  let poll (found : Option Bool) : Sending := match found with
    | none | some false => .error
    | some true => match answers.state with
      | none => .error
      | some state => messageState attempts (state.getD "")
  match answers.found, payload with
  | none, _ => .error
  | some true, _ => poll (some true)
  | some false, .send actor =>
    if answers.readsActor actor then
      match answers.enqueued with
      | .ok .queued | .ok .draft => poll (some true)
      | .ok .duplicate => poll answers.foundAgain
      | .error reason =>
        let lower := toAsciiLowercase reason
        let code := if contains lower "window" || contains lower "template" then
          "message_window_closed" else "message_failed"
        .failed code ("WhatsApp would not send it: " ++ reason ++
          ". The link was created, so you can send it by hand and mark it sent.") false
    else .failed "message_failed" "The approver of this card could not be found." false
  | some false, _ => .failed "message_failed" "The approver of this card could not be found." false

def sendEmail (attempts : Nat) (answers : EmailAnswers) : Sending :=
  let unreached :=
    if MAX_ATTEMPTS ≤ attempts then
      .failed "message_failed"
        "The mail service could not be reached. Copy the message and send it yourself, then mark it sent."
        true
    else .error
  if !answers.configured then
    .failed "message_failed"
      "Email sending is not switched on for this relay. Copy the message and send it yourself, then mark it sent."
      false
  else match answers.response with
    | none => unreached
    | some status =>
      if 200 ≤ status ∧ status < 300 then .delivered
      else if 400 ≤ status ∧ status < 500 ∧ status ≠ 429 then
        .failed "message_failed"
          "The mail service refused the message. Copy it and send it yourself, then mark it sent."
          false
      else unreached

inductive Ending
  | complete
  | later (delaySecs : Int)

inductive Phase
  -- `process_job`, before it looks its community up.
  | start
  | read
  | connect (head : LinkHead)
  | provide (head : LinkHead)
  | save (created : Created)
  | link (created : Created)
  | send (head : LinkHead)
  | record (head : LinkHead)
  | apply (op : SystemOp) (ending : Ending)
  | finish (ending : Ending)
  -- Failed too often: the card is about to be failed, then the job completed.
  | giveUp
  | forget
  | reschedule

structure Worker where
  kind : JobKind
  payload : Payload
  result : Option Created
  attempts : Nat
  -- How often the job had been queued when it was claimed.
  queued : Nat
  phase : Phase

/-- A write that went through, one that did not, and one that did although it reported an error. -/
inductive Ack
  | ok
  | lost
  | unacked
  deriving DecidableEq

inductive Answer
  | tenant (found : Bool)
  | card (read : Bool)
  -- `none` is a lookup that failed.
  | connection (found : Option Bool)
  | provider (answer : Except RunFailure SavedCreate)
  | sending (answers : SendAnswers)
  | payment (result : EvidenceResult)
  | write (ack : Ack) (now : Int)

structure Turn where
  write : Option Write
  phase : Option Phase

def Created.op (created : Created) : SystemOp :=
  .linkCreated created.url created.reference created.amountMinor created.currency

namespace Worker

def fails (worker : Worker) : Phase :=
  if MAX_JOB_ATTEMPTS ≤ worker.attempts then .giveUp else .reschedule

def writes (worker : Worker) (write : Write) (next : Option Phase) : Ack → Turn
  | .ok => ⟨some write, next⟩
  | .lost => ⟨none, some worker.fails⟩
  | .unacked => ⟨some write, some worker.fails⟩

def writesAnyway (write : Write) (next : Option Phase) : Ack → Turn
  | .ok | .unacked => ⟨some write, next⟩
  | .lost => ⟨none, next⟩

def failOrRetry (worker : Worker) (failure : RunFailure) : Phase :=
  if failure.retryable ∧ worker.attempts < MAX_ATTEMPTS then
    .finish (.later (backoffSecs worker.attempts))
  else .apply (.fail failure.code failure.reason failure.retryable) .complete

def deliveryFailed (code reason : String) (retryable : Bool) : Phase :=
  .apply (.deliveryFailed code reason retryable) .complete

def afterTenant (worker : Worker) : Phase :=
  match worker.kind with
  | .create | .send | .evidence => .read
  | .expire => .apply .expire .complete
  | .grant => .apply .grantExpired .complete

variable (lib : Libs)

def afterRead (worker : Worker) : Option LinkHead → Phase
  | none => .finish .complete
  | some head => match worker.kind with
    | .create =>
      if head.state ≠ .creatingLink ∨ head.route ≠ .api ∨ head.linkExists then .finish .complete
      else match worker.result with
        | some created => .link created
        | none => .connect head
    | .send =>
      if head.state ≠ .creatingLink ∨ ¬head.linkExists then .finish .complete
      else if ¬head.approvalIsValid lib then
        deliveryFailed "card_not_approved"
          "The card no longer matches its approval, so nothing was sent." false
      else .send head
    | .evidence => if head.state = .paid then .finish .complete else .record head
    | .expire | .grant => .finish .complete

def afterProvider (worker : Worker) (head : LinkHead) (answer : Except RunFailure SavedCreate) :
    Phase :=
  if ¬head.approvalIsValid lib then
    worker.failOrRetry ⟨"card_not_approved", "The card is not approved, so no link is created.", false⟩
  else match answer with
    | .ok created => .save ⟨created, head⟩
    | .error failure => worker.failOrRetry failure

def sending (worker : Worker) (head : LinkHead) (answers : SendAnswers) : Sending :=
  match answers.recipient with
  | none => .error
  | some none => .failed "message_failed" "The recipient of this card could not be found." false
  | some (some _) => match head.recipientChannel with
    | .whatsapp => sendWhatsapp worker.payload worker.attempts answers.whatsapp
    | .email => sendEmail worker.attempts answers.email

def afterSending (worker : Worker) : Sending → Phase
  | .delivered => .apply .delivered .complete
  | .failed code reason retryable => deliveryFailed code reason retryable
  | .later delaySecs => .finish (.later delaySecs)
  | .error => worker.fails

def afterPayment (worker : Worker) : EvidenceResult → Phase
  | .recorded paymentId eventId => .apply (.evidenceRecorded paymentId eventId) .complete
  | .failed reason retryable => .apply (.evidencePending reason)
      (if retryable ∧ worker.attempts < MAX_EVIDENCE_ATTEMPTS then
        .later (backoffSecs worker.attempts) else .complete)

def systemCall (current : Option LinkHead) (op : SystemOp) (now : Int) : Call :=
  .system op now ((current.map fun head =>
    lib.derivedEventId "system" head.linkId (min (head.version + 1) (2 ^ 32 - 1))).getD "")

def applies (worker : Worker) (current : Option LinkHead) (op : SystemOp) (now : Int)
    (next : Phase) (ack : Ack) : Turn :=
  let call := systemCall lib current op now
  match call.apply lib current with
  | .ok _ => worker.writes (.commit call now) (some next) ack
  | .error _ => ⟨none, some worker.fails⟩

def gaveUp : SystemOp := .fail "job_failed" "Colony could not finish this step. Try again." true

def next (worker : Worker) (current : Option LinkHead) : Answer → Option Turn
  | .tenant found => match worker.phase with
    | .start => some ⟨none, if found then worker.afterTenant else some .forget⟩
    | _ => none
  | .card read => match worker.phase with
    | .read => some ⟨none, if read then worker.afterRead lib current else some worker.fails⟩
    | _ => none
  | .connection found => match worker.phase with
    | .connect head => some ⟨none, match found with
      | none => worker.fails
      | some false => worker.failOrRetry
          ⟨"connection_missing", "The payment provider connection was removed.", false⟩
      | some true => some (.provide head)⟩
    | _ => none
  | .provider answer => match worker.phase with
    | .provide head => some ⟨none, worker.afterProvider lib head answer⟩
    | _ => none
  | .sending answers => match worker.phase with
    | .send head => some ⟨none, worker.afterSending (worker.sending head answers)⟩
    | _ => none
  | .payment result => match worker.phase with
    | .record _ => some ⟨none, worker.afterPayment result⟩
    | _ => none
  | .write ack now => match worker.phase with
    | .save created => some (worker.writes (.save .create created) (some (.link created)) ack)
    | .link created =>
      some (worker.applies lib current created.op now (.finish .complete) ack)
    | .apply op ending => some (worker.applies lib current op now (.finish ending) ack)
    | .finish .complete => some (worker.writes (.complete worker.kind) none ack)
    | .finish (.later delaySecs) =>
      some (worker.writes (.later worker.kind (now + delaySecs)) none ack)
    | .giveUp =>
      some (writesAnyway (.commit (systemCall lib current gaveUp now) now) (some .forget) ack)
    | .forget => some (writesAnyway (.complete worker.kind) none ack)
    | .reschedule =>
      some (writesAnyway (.later worker.kind (now + backoffSecs worker.attempts)) none ack)
    | _ => none

end Worker

/-- A link that was recorded on the card, and the head its provider call was rendered from. -/
structure Recorded where
  rendered : LinkHead
  head : LinkHead

structure World where
  ledger : Ledger
  -- The id of the event that holds the head.
  headId : Option String
  workers : Dict Nat Worker
  recorded : List Recorded

inductive Act
  | command (action : LinkAction) (ctx : LinkContext) (effectsAt : Int) (headId : String)
  | notice (noticeId : Uuid) (verifiedBy : Option VerifiedBy) (reference : Option String)
      (amountMinor : Option Int) (currency : Option String) (paidAt : Int)
      (mismatch : Option Mismatch) (now : Int) (headId : String)
  | grant (host kind : String) (refusal : Option (String × String)) (now : Int) (headId : String)
  | claim (worker : Nat) (kind : JobKind) (due : Bool) (now : Int)
  | move (worker : Nat) (answer : Answer) (headId : String)
  -- The worker is dropped: its process stopped.
  | drop (worker : Nat)

namespace World

def empty : World := ⟨.empty, none, ∅, []⟩

def head (w : World) : Option LinkHead := w.ledger.card.head

def expects (w : World) (action : LinkAction) : Bool :=
  action.op == .draft || action.expectedHeadEventId == w.headId

def nextHeadId (w : World) (ledger : Ledger) (headId : String) : Option String :=
  if ledger.card.head = w.head then w.headId else some headId

variable (lib : Libs)

def write (w : World) (write : Option Write) (headId : String) : World :=
  let ledger := write.elim w.ledger (w.ledger.step lib)
  { w with ledger, headId := w.nextHeadId ledger headId }

def records (before after : Option LinkHead) : Phase → Option Recorded
  | .link created => match before, after with
    | some h, some h' => if h'.linkExists ∧ ¬h.linkExists then some ⟨created.rendered, h'⟩ else none
    | _, _ => none
  | _ => none

def setWorker (w : World) (n : Nat) : Option Worker → Dict Nat Worker
  | some worker => w.workers.insert n worker
  | none => w.workers.erase n

def turn (w : World) (n : Nat) (worker : Worker) (turn : Turn) (headId : String) : World :=
  let w' := w.write lib turn.write headId
  { w' with
    workers := w.setWorker n (turn.phase.map fun phase => { worker with phase })
    recorded := w.recorded ++ (records w.head w'.head worker.phase).toList }

def claimed (w : World) (kind : JobKind) (job : Job) : Worker where
  kind
  payload := job.payload
  result := job.result
  attempts := job.attempts + 1
  queued := w.ledger.jobs.queued kind
  phase := .start

def step (w : World) : Act → World
  | .command action ctx effectsAt headId =>
    if w.expects action then w.write lib (some (.commit (.act action ctx) effectsAt)) headId else w
  | .notice noticeId verifiedBy reference amountMinor currency paidAt mismatch now headId =>
    let op := .notice noticeId verifiedBy reference amountMinor currency paidAt mismatch
    w.write lib (some (.commit (Worker.systemCall lib w.head op now) now)) headId
  | .grant host kind refusal now headId => w.write lib (some (.grant host kind refusal now)) headId
  | .claim n kind due now => match w.workers.lookup n, w.ledger.jobs.claimable kind due now with
    | none, some job =>
      { w with
        ledger := w.ledger.step lib (.claim kind due now)
        workers := w.setWorker n (some (w.claimed kind job)) }
    | _, _ => w
  | .move n answer headId => match w.workers.lookup n with
    | none => w
    | some worker => match worker.next lib w.head answer with
      | none => w
      | some turn => w.turn lib n worker turn headId
  | .drop n => { w with workers := w.setWorker n none }

end World

end Colony.Money
