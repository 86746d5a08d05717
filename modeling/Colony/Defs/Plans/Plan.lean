import Colony.Defs.Core.Text

namespace Colony.Plans

open Colony.Core

inductive CompanyFunction
  | sales
  | operations
  | customerSuccess
  | finance
  | brand
  deriving DecidableEq

inductive PlanStatus
  | proposed
  | approved
  | completed
  | rejected
  | cancelled
  deriving DecidableEq

def PlanStatus.isOpen : PlanStatus → Bool
  | .proposed | .approved => true
  | _ => false

inductive PlanStepStatus
  | pending
  | waitingApproval
  | approved
  | inProgress
  | done
  | skipped
  | failed
  deriving DecidableEq

def PlanStepStatus.isEnded : PlanStepStatus → Bool
  | .done | .skipped | .failed => true
  | _ => false

inductive PlanApprovalKind
  | outreach
  | spend
  | taste
  | hire
  | other
  deriving DecidableEq

structure PlanApprovalPoint where
  kind : PlanApprovalKind
  prompt : String
  deriving DecidableEq

inductive PlanOwnerKind
  | function
  | leadAgent
  | worker
  -- A person.
  | owner
  deriving DecidableEq

structure PlanStepOwner where
  kind : PlanOwnerKind
  function : Option CompanyFunction
  agentPubkey : Option String
  workerType : Option String
  deriving DecidableEq

structure PlanStep where
  stepId : String
  title : String
  detail : Option String
  owner : PlanStepOwner
  tools : List String
  costLabel : String
  costEstimateCents : Nat
  whenLabel : String
  approvalPoint : Option PlanApprovalPoint
  status : PlanStepStatus
  note : Option String
  deriving DecidableEq

structure PlanProposal where
  title : String
  summary : String
  function : Option CompanyFunction
  currency : String
  budgetCents : Nat
  decideBy : Option Int
  targetLabel : Option String
  timingLabel : Option String
  steps : List PlanStep
  deriving DecidableEq

inductive PlanDecision
  | approved
  | rejected
  | edited
  | cancelled
  deriving DecidableEq

inductive PlanApprovalScope
  | plan
  | step
  deriving DecidableEq

structure PlanApprovalRecord where
  scope : PlanApprovalScope
  stepId : Option String
  decision : PlanDecision
  actorPubkey : String
  at_ : Int
  revision : Nat
  note : Option String
  actionEventId : String
  deriving DecidableEq

inductive PlanActionKind
  | propose
  | revise
  | approve
  | reject
  | cancel
  | requestStepApproval
  | approveStep
  | rejectStep
  | updateStep
  deriving DecidableEq

structure PlanAction where
  schemaVersion : Nat
  planId : String
  kind : PlanActionKind
  plan : Option PlanProposal
  revision : Option Nat
  stepId : Option String
  stepStatus : Option PlanStepStatus
  note : Option String
  expectedHeadEventId : Option String
  deriving DecidableEq

structure PlanHead where
  schemaVersion : Nat
  planId : String
  status : PlanStatus
  revision : Nat
  plan : PlanProposal
  proposedByPubkey : String
  proposedAt : Int
  updatedByPubkey : String
  updatedAt : Int
  approvals : List PlanApprovalRecord
  sourceActionEventId : String
  deriving DecidableEq

def companyRecordSchemaVersion : Nat := 1

def maxPlanSteps : Nat := 24

def maxPlanTitleChars : Nat := 120

def maxPlanSummaryChars : Nat := 600

def maxStepTitleChars : Nat := 160

def maxStepDetailChars : Nat := 600

def maxPlanLabelChars : Nat := 80

def maxPlanNoteChars : Nat := 500

def maxStepTools : Nat := 6

def maxPlanApprovals : Nat := 200

def maxPlanAmountCents : Nat := 100000000

inductive CompanyRecordError
  | unsupportedSchemaVersion
  | invalid (text : String)
  deriving DecidableEq

def CompanyRecordError.toText : CompanyRecordError → String
  | .unsupportedSchemaVersion => "unsupported company record schema version"
  | .invalid text => "invalid company record: " ++ text

abbrev Check := Except CompanyRecordError Unit

def ensure (ok : Bool) (text : String) : Check := if ok then .ok () else .error (.invalid text)

def isLowerHex (c : Char) : Bool := c.isDigit || ('a' ≤ c && c ≤ 'f')

def isHexId (value : String) : Bool := value.toList.length = 64 && value.toList.all isLowerHex

def isCanonicalUuid (value : String) : Bool :=
  let groups := value.toList.splitOn '-'
  groups.map List.length = [8, 4, 4, 4, 12] && groups.flatten.all isLowerHex &&
    groups.flatten.any fun c => c ≠ '0'

def textWithin (value : String) (maxChars : Nat) : Bool :=
  !(trim value).toList.isEmpty && value.toList.length ≤ maxChars

def optionalTextWithin (value : Option String) (maxChars : Nat) : Bool :=
  value.all fun text => textWithin text maxChars

def isStepId (value : String) : Bool :=
  let chars := value.toList
  1 ≤ chars.length && chars.length ≤ 32 &&
    chars.all fun c => c.isLower || c.isDigit || c = '-' || c = '_'

def planDTag (planId : String) : Except CompanyRecordError String := do
  ensure (isCanonicalUuid planId) "planId must be a lowercase UUID"
  return "company:plan:" ++ planId

def validateOwner (owner : PlanStepOwner) : Check := do
  ensure (owner.agentPubkey.all isHexId)
    "a step owner's agentPubkey must be 64 lowercase hex characters"
  match owner.kind with
  | .function =>
    ensure (owner.function.isSome && owner.agentPubkey.isNone && owner.workerType.isNone)
      "a function step owner names only a function"
  | .leadAgent =>
    ensure (owner.agentPubkey.isSome && owner.function.isNone && owner.workerType.isNone)
      "a lead agent step owner names only an agentPubkey"
  | .worker =>
    ensure (owner.workerType.any (textWithin · maxPlanLabelChars) && owner.function.isNone)
      "a worker step owner names a workerType"
  | .owner =>
    ensure (owner.function.isNone && owner.agentPubkey.isNone && owner.workerType.isNone)
      "an owner step names no function, agent or worker type"

def validateStep (step : PlanStep) : Check := do
  ensure (isStepId step.stepId) "stepId is 1 to 32 characters of a-z, 0-9, - and _"
  ensure (textWithin step.title maxStepTitleChars) "a step title is 1 to 160 characters"
  ensure (optionalTextWithin step.detail maxStepDetailChars) "a step detail is 1 to 600 characters"
  validateOwner step.owner
  ensure (step.tools.length ≤ maxStepTools && step.tools.all (textWithin · maxPlanLabelChars))
    "a step names at most 6 tools of 1 to 80 characters"
  ensure (textWithin step.costLabel maxPlanLabelChars && textWithin step.whenLabel maxPlanLabelChars)
    "a step costLabel and whenLabel are 1 to 80 characters"
  ensure (step.costEstimateCents ≤ maxPlanAmountCents) "a step costEstimateCents is out of range"
  ensure (step.approvalPoint.all fun point => textWithin point.prompt maxPlanLabelChars)
    "an approval point prompt is 1 to 80 characters"
  ensure (optionalTextWithin step.note maxPlanNoteChars) "a step note is 1 to 500 characters"
  if step.owner.kind = .worker then
    ensure (step.costEstimateCents = 0) "a worker step cannot spend: workers never spend"
    ensure (step.approvalPoint.all fun point => point.kind ≠ .outreach && point.kind ≠ .spend)
      "a worker step cannot send or spend: workers never take outward actions"

/-- The loop over the steps, with those before and what is spent without an approval point. -/
def validateSteps (requirePending : Bool) : List PlanStep → Nat → List PlanStep →
    Except CompanyRecordError Nat
  | _, ungatedSpend, [] => .ok ungatedSpend
  | earlier, ungatedSpend, step :: rest => do
    validateStep step
    ensure (!earlier.any fun e => e.stepId = step.stepId) "stepId values must be unique"
    ensure (!(requirePending && (step.status ≠ .pending || step.note.isSome)))
      "every step of a proposal starts pending with no note"
    let spend :=
      if 0 < step.costEstimateCents ∧ step.approvalPoint.isNone then
        min (2 ^ 64 - 1) (ungatedSpend + step.costEstimateCents)
      else ungatedSpend
    validateSteps requirePending (earlier ++ [step]) spend rest

def validatePlanProposal (plan : PlanProposal) (requirePending : Bool) : Check := do
  ensure (textWithin plan.title maxPlanTitleChars) "a plan title is 1 to 120 characters"
  ensure (plan.summary.toList.length ≤ maxPlanSummaryChars) "a plan summary is at most 600 characters"
  ensure (plan.currency.toList.length = 3 && plan.currency.toList.all Char.isUpper)
    "currency is a three-letter uppercase code"
  ensure (plan.budgetCents ≤ maxPlanAmountCents) "budgetCents is out of range"
  ensure (plan.decideBy.all fun value => 0 < value) "decideBy must be a Unix time"
  ensure (optionalTextWithin plan.targetLabel maxPlanLabelChars &&
      optionalTextWithin plan.timingLabel maxPlanLabelChars)
    "targetLabel and timingLabel are 1 to 80 characters"
  ensure (!plan.steps.isEmpty && plan.steps.length ≤ maxPlanSteps) "a plan has 1 to 24 steps"
  let ungatedSpend ← validateSteps requirePending [] 0 plan.steps
  ensure (ungatedSpend ≤ plan.budgetCents)
    "steps that spend need an approval point or a plan budget that covers them"

def validateFields (action : PlanAction) : Check :=
  match action.kind with
  | .propose | .revise => do
    ensure (action.plan.isSome && action.revision.isNone && action.stepId.isNone &&
      action.stepStatus.isNone && action.note.isNone) "propose and revise carry only a plan"
    match action.plan with
    | some plan => validatePlanProposal plan true
    | none => .ok ()
  | .approve | .reject =>
    ensure (action.plan.isNone && action.revision.isSome && action.stepId.isNone &&
      action.stepStatus.isNone) "approve and reject carry only the revision (and a note)"
  | .cancel =>
    ensure (action.plan.isNone && action.revision.isNone && action.stepId.isNone &&
      action.stepStatus.isNone) "cancel carries only an optional note"
  | .requestStepApproval | .approveStep | .rejectStep =>
    ensure (action.plan.isNone && action.revision.isNone && action.stepId.isSome &&
      action.stepStatus.isNone) "step approval actions carry only a stepId (and a note)"
  | .updateStep => do
    ensure (action.plan.isNone && action.revision.isNone && action.stepId.isSome)
      "update_step carries a stepId and a stepStatus"
    ensure (action.stepStatus.any fun to_ =>
        to_ = .inProgress || to_ = .done || to_ = .skipped || to_ = .failed)
      "update_step moves a step to in_progress, done, skipped or failed"
    ensure (!(action.stepStatus = some .failed && action.note.isNone))
      "a failed step needs a note that says why"

def validatePlanAction (action : PlanAction) : Check := do
  if action.schemaVersion ≠ companyRecordSchemaVersion then .error .unsupportedSchemaVersion
  let _ ← planDTag action.planId
  ensure (action.expectedHeadEventId.all isHexId) "expectedHeadEventId must be a 64-character event id"
  ensure (action.stepId.all isStepId) "stepId is 1 to 32 characters of a-z, 0-9, - and _"
  ensure (optionalTextWithin action.note maxPlanNoteChars) "a note is 1 to 500 characters"
  ensure (decide (action.kind ≠ .propose) == action.expectedHeadEventId.isSome)
    "propose names no expected head; every other action names the exact head"
  validateFields action

inductive PlanErrorKind
  | invalid
  | forbidden
  | conflict
  deriving DecidableEq

structure PlanError where
  kind : PlanErrorKind
  message : String
  deriving DecidableEq

abbrev Result (α : Type) := Except PlanError α

def invalid {α : Type} (message : String) : Result α := .error ⟨.invalid, message⟩

def forbidden {α : Type} (message : String) : Result α := .error ⟨.forbidden, message⟩

def conflict {α : Type} (message : String) : Result α := .error ⟨.conflict, message⟩

inductive PlanActorRole
  | admin
  | member
  | managedAgent
  deriving DecidableEq

structure PlanActor where
  pubkey : String
  role : PlanActorRole
  ledFunctions : List CompanyFunction
  deriving DecidableEq

structure PlanContext where
  now : Int
  cofounderEnabled : Bool
  actionEventId : String
  deriving DecidableEq

variable (head : PlanHead) (action : PlanAction) (actor : PlanActor) (context : PlanContext)

def requireCofounder (what : String) : Result Unit :=
  if context.cofounderEnabled then .ok ()
  else forbidden ("co-founder mode is off for this company, so " ++ what)

def requireAdmin (what : String) : Result Unit :=
  if actor.role = .admin then .ok () else forbidden ("only the owner or an admin can " ++ what)

def requireApproved : Result Unit :=
  if head.status = .approved then .ok () else conflict "the plan is not approved yet"

def findStep (stepId : String) : Result (Nat × PlanStep) :=
  let index := head.plan.steps.findIdx fun step => step.stepId = stepId
  match head.plan.steps[index]? with
  | some step => .ok (index, step)
  | none => invalid ("the plan has no step " ++ stepId)

def actorCanRunStep (step : PlanStep) : Bool :=
  if actor.role = .admin then true
  else if step.owner.kind = .owner then false
  else if actor.pubkey = head.proposedByPubkey then true
  else if step.owner.agentPubkey = some actor.pubkey then true
  else step.owner.function.any fun function => actor.ledFunctions.contains function

def record (scope : PlanApprovalScope) (stepId : Option String) (decision : PlanDecision)
    (note : Option String) : PlanApprovalRecord :=
  ⟨scope, stepId, decision, actor.pubkey, context.now, head.revision, note, context.actionEventId⟩

def pushRecord (scope : PlanApprovalScope) (stepId : Option String) (decision : PlanDecision)
    (note : Option String) : Result PlanHead :=
  if maxPlanApprovals ≤ head.approvals.length then conflict "this plan's approval record is full"
  else .ok { head with
    approvals := head.approvals ++ [record head actor context scope stepId decision note] }

def stepTransitionAllowed (step : PlanStep) (to_ : PlanStepStatus) : Bool :=
  let gated := step.approvalPoint.isSome
  match step.status, to_ with
  | .pending, .inProgress => !gated
  | .approved, .inProgress => true
  | .inProgress, .done | .inProgress, .failed | .approved, .done | .approved, .failed => true
  | .pending, .done => !gated && step.owner.kind = .owner
  | .pending, .skipped | .waitingApproval, .skipped | .approved, .skipped | .inProgress, .skipped => true
  | _, _ => false

def isProposer : Bool := actor.pubkey = head.proposedByPubkey

def checkRevision : Result Unit :=
  if action.revision = some head.revision then .ok ()
  else conflict ("the plan changed since you looked: it is now revision " ++ toString head.revision)

def propose : Result PlanHead :=
  if action.kind ≠ .propose then conflict "this plan does not exist"
  else do
    requireCofounder context "plans cannot be proposed"
    match action.plan with
    | none => invalid "propose needs a plan"
    | some plan =>
      .ok { schemaVersion := companyRecordSchemaVersion
            planId := action.planId
            status := .proposed
            revision := 1
            plan
            proposedByPubkey := actor.pubkey
            proposedAt := context.now
            updatedByPubkey := actor.pubkey
            updatedAt := context.now
            approvals := []
            sourceActionEventId := context.actionEventId }

def revise : Result PlanHead :=
  if head.status ≠ .proposed then conflict "only a proposed plan can be revised"
  else do
    requireCofounder context "plans cannot be revised"
    if !isProposer head actor && actor.role ≠ .admin then
      forbidden "only the proposer, the owner or an admin can revise a plan"
    match action.plan with
    | none => invalid "revise needs a plan"
    | some plan =>
      let next := { head with plan, revision := min (2 ^ 32 - 1) (head.revision + 1) }
      if isProposer head actor then .ok next
      else pushRecord next actor context .plan none .edited none

def approve : Result PlanHead := do
  requireAdmin actor "approve a plan"
  if head.status ≠ .proposed then conflict "only a proposed plan can be approved"
  requireCofounder context "new plans cannot be approved"
  checkRevision head action
  pushRecord { head with status := .approved } actor context .plan none .approved action.note

def reject : Result PlanHead := do
  requireAdmin actor "reject a plan"
  if head.status ≠ .proposed then
    conflict "only a proposed plan can be rejected; cancel a running plan instead"
  checkRevision head action
  pushRecord { head with status := .rejected } actor context .plan none .rejected action.note

def cancel : Result PlanHead := do
  if !isProposer head actor && actor.role ≠ .admin then
    forbidden "only the proposer, the owner or an admin can cancel a plan"
  pushRecord { head with status := .cancelled } actor context .plan none .cancelled action.note

def setStep (index : Nat) (step : PlanStep) (to_ : PlanStepStatus) : PlanHead :=
  { head with plan := { head.plan with
      steps := head.plan.steps.set index { step with status := to_, note := action.note <|> step.note } } }

def requestStepApproval : Result PlanHead := do
  requireApproved head
  let (index, step) ← findStep head (action.stepId.getD "")
  if !actorCanRunStep head actor step then forbidden "you are not the doer of this step"
  if step.approvalPoint.isNone then conflict "this step has no approval point"
  if step.status ≠ .pending then conflict "only a pending step can ask for approval"
  return setStep head action index step .waitingApproval

def decideStep : Result PlanHead := do
  let approving := action.kind = .approveStep
  requireAdmin actor (if approving then "approve a step" else "reject a step")
  requireApproved head
  let stepId := action.stepId.getD ""
  let (index, step) ← findStep head stepId
  if step.approvalPoint.isNone then conflict "this step has no approval point"
  if step.status ≠ .pending ∧ step.status ≠ .waitingApproval then
    conflict "only a step that has not started can be approved or rejected"
  pushRecord (setStep head action index step (if approving then .approved else .skipped)) actor context
    .step (some stepId) (if approving then .approved else .rejected) action.note

def updateStep : Result PlanHead := do
  requireApproved head
  let (index, step) ← findStep head (action.stepId.getD "")
  if !actorCanRunStep head actor step then forbidden "you are not the doer of this step"
  match action.stepStatus with
  | none => invalid "update_step needs a stepStatus"
  | some to_ =>
    if stepTransitionAllowed step to_ then return setStep head action index step to_
    else if (step.status = .pending ∧ step.approvalPoint.isSome) ∨ step.status = .waitingApproval then
      conflict "this step waits for the owner's approval before it can run"
    else conflict "that step cannot move to that state from where it is"

def applyKind : Result PlanHead :=
  match action.kind with
  | .propose => conflict "a plan with this id already exists"
  | .revise => revise head action actor context
  | .approve => approve head action actor context
  | .reject => reject head action actor context
  | .cancel => cancel head action actor context
  | .requestStepApproval => requestStepApproval head action actor
  | .approveStep | .rejectStep => decideStep head action actor context
  | .updateStep => updateStep head action actor

/-- What is noted of every action, and the end of a plan with that of its last step. -/
def finish (next : PlanHead) : PlanHead :=
  { next with
    updatedByPubkey := actor.pubkey
    updatedAt := context.now
    sourceActionEventId := context.actionEventId
    status :=
      if next.status = .approved ∧ next.plan.steps.all (fun step => step.status.isEnded) then .completed
      else next.status }

def applyPlanAction (current : Option PlanHead) : Result PlanHead :=
  match validatePlanAction action with
  | .error error => invalid error.toText
  | .ok () =>
    match current with
    | none => propose action actor context
    | some head =>
      if action.kind = .propose then conflict "a plan with this id already exists"
      else if head.planId ≠ action.planId then
        invalid "the action names a different plan than the head"
      else if !head.status.isOpen then conflict "this plan has already ended"
      else (applyKind head action actor context).map (finish actor context)

end Colony.Plans
