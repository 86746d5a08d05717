import Colony.Defs.Money.Card

namespace Colony.Money

open Colony.Core Colony.Data

def LEASE_SECS : Int := 120

inductive JobKind
  | create
  | send
  | evidence
  | expire
  | grant
  deriving DecidableEq

inductive Payload
  | empty
  | send (actor : String)
  | evidence (actor : String) (source : PaymentSource) (reference : Option String)
      (amountMinor : Int) (currency : String) (paidAt : Int) (noticeId : Option Uuid)
  deriving DecidableEq

structure SavedCreate where
  url : String
  reference : Option String
  amountMinor : Int
  currency : String
  deriving DecidableEq

structure Created extends SavedCreate where
  rendered : LinkHead
  deriving DecidableEq

structure Job where
  payload : Payload
  result : Option Created
  attempts : Nat
  nextAt : Int
  leaseUntil : Option Int
  done : Bool
  deriving DecidableEq

structure JobTable where
  row : JobKind → Option Job
  -- How often each kind was queued.
  queued : JobKind → Nat

namespace JobTable

def empty : JobTable := ⟨fun _ => none, fun _ => 0⟩

def enqueue (t : JobTable) (kind : JobKind) (payload : Payload) (nextAt : Int) : JobTable where
  row := Function.update t.row kind (some ⟨payload, none, 0, nextAt, none, false⟩)
  queued := Function.update t.queued kind (t.queued kind + 1)

def modify (t : JobTable) (kind : JobKind) (f : Job → Job) : JobTable :=
  { t with row := Function.update t.row kind ((t.row kind).map f) }

def cancelAll (t : JobTable) : JobTable :=
  { t with
    row := fun kind => (t.row kind).map fun job =>
      if job.done then job else { job with done := true, leaseUntil := none } }

def complete (t : JobTable) (kind : JobKind) : JobTable :=
  t.modify kind fun job => { job with done := true, leaseUntil := none }

def save (t : JobTable) (kind : JobKind) (result : Created) : JobTable :=
  t.modify kind fun job => { job with result := some result }

def later (t : JobTable) (kind : JobKind) (nextAt : Int) : JobTable :=
  t.modify kind fun job => { job with leaseUntil := none, nextAt }

/-- Open, not leased, and due if it is asked for: `money_claim_job` and `money_claim_due_jobs`. -/
def claimable (t : JobTable) (kind : JobKind) (due : Bool) (now : Int) : Option Job :=
  (t.row kind).filter fun job =>
    !job.done && (!due || job.nextAt ≤ now) && (job.leaseUntil.all fun lease => lease ≤ now)

def claim (t : JobTable) (kind : JobKind) (due : Bool) (now : Int) : JobTable :=
  match t.claimable kind due now with
  | some _ => t.modify kind fun job =>
      { job with leaseUntil := some (now + LEASE_SECS), attempts := job.attempts + 1 }
  | none => t

end JobTable

def LinkHead.approverOf (head : LinkHead) (actorPubkey : String) : String :=
  (head.approval.map Approval.approvedBy).getD actorPubkey

def JobTable.enqueueExpiry (t : JobTable) (head : LinkHead) : JobTable :=
  match head.expiresAt with
  | some expiresAt => t.enqueue .expire .empty expiresAt
  | none => t

def JobTable.applyEffect (head : LinkHead) (actorPubkey : String) (now : Int) (t : JobTable) :
    LinkEffect → JobTable
  | .putRecipient _ _ _ _ => t
  | .queueCreate => (t.enqueue .create .empty now).enqueueExpiry head
  | .wakeBrowser =>
    let t := match head.browserGrant with
      | some grant => t.enqueue .grant .empty grant.untilAt
      | none => t
    t.enqueueExpiry head
  | .queueSend => t.enqueue .send (.send (head.approverOf actorPubkey)) now
  | .cancelJobs => t.cancelAll
  | .writeEvidence source reference amountMinor currency paidAt noticeId =>
    t.enqueue .evidence (.evidence (head.approverOf actorPubkey) source reference amountMinor
      currency paidAt noticeId) now

def JobTable.applyEffects (t : JobTable) (head : LinkHead) (actorPubkey : String) (now : Int)
    (effects : List LinkEffect) : JobTable :=
  effects.foldl (applyEffect head actorPubkey now) t

/-- Decides one browser step: the head with the grant stamped used, or the code and reason. -/
def useBrowserGrant (lib : Libs) (head : LinkHead) (host kind : String)
    (refusal : Option (String × String)) (now : Int) : Except (String × String) LinkHead := do
  ensure (head.state = .creatingLink ∧ head.route = .browser ∧ head.approvalIsValid lib)
    ("card_not_approved", "The card is not approved for a browser step.")
  let grant ← orRefuse head.browserGrant ("no_grant", "This card has no browser permission.")
  ensure (grant.usedAt = none)
    ("grant_used", "The one Create step this card allowed was already used.")
  ensure (now < grant.untilAt) ("grant_expired", "The 15 minute window for this card ran out.")
  ensure (host = grant.host) ("host_mismatch", "This card only allows its provider's dashboard.")
  ensure (kind = "create")
    ("kind_not_allowed", "Only the Create step is allowed without a confirmation.")
  match refusal with
  | some refusal => .error refusal
  | none =>
    let version := min (head.version + 1) (2 ^ 32 - 1)
    return { head with
      browserGrant := some { grant with usedAt := some now } }.touch now
        (lib.derivedEventId "grant" head.linkId version)

structure Ledger where
  card : Card
  jobs : JobTable
  -- The kinds of the jobs that were completed by the worker that ran them.
  completed : List JobKind

inductive Write
  | commit (call : Call) (effectsAt : Int)
  | grant (host kind : String) (refusal : Option (String × String)) (now : Int)
  | claim (kind : JobKind) (due : Bool) (now : Int)
  | save (kind : JobKind) (result : Created)
  | complete (kind : JobKind)
  | later (kind : JobKind) (nextAt : Int)

def Call.actorPubkey (call : Call) (head : LinkHead) : String :=
  match call with
  | .act _ ctx => ctx.actor.pubkey
  | .system _ _ _ => head.approverOf head.draftedBy

namespace Ledger

def empty : Ledger := ⟨.blank, .empty, []⟩

def store (l : Ledger) (call : Call) (effectsAt : Int) (head : LinkHead)
    (effects : List LinkEffect) : Ledger :=
  { l with
    card := l.card.store call head effects
    jobs := l.jobs.applyEffects head (call.actorPubkey head) effectsAt effects }

def step (lib : Libs) (l : Ledger) : Write → Ledger
  | .commit call effectsAt => match call.apply lib l.card.head with
    | .ok (.changed head effects) => l.store call effectsAt head effects
    | .ok (.unchanged _) | .error _ => l
  | .grant host kind refusal now => match l.card.head with
    | none => l
    | some head => match useBrowserGrant lib head host kind refusal now with
      | .ok head => { l with card := { l.card with head := some head } }
      | .error _ => l
  | .claim kind due now => { l with jobs := l.jobs.claim kind due now }
  | .save kind result => { l with jobs := l.jobs.save kind result }
  | .complete kind => { l with jobs := l.jobs.complete kind, completed := l.completed ++ [kind] }
  | .later kind nextAt => { l with jobs := l.jobs.later kind nextAt }

end Ledger

end Colony.Money
