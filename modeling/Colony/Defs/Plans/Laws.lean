import Colony.Defs.Data.Except
import Colony.Defs.Data.Run
import Colony.Defs.Plans.Plan
import Mathlib.Data.List.Nodup

namespace Colony.Plans

open Colony.Data

def PlanStep.content (step : PlanStep) : PlanStep := { step with status := .pending, note := none }

def PlanProposal.content (plan : PlanProposal) : PlanProposal :=
  { plan with steps := plan.steps.map PlanStep.content }

def PlanProposal.stepIds (plan : PlanProposal) : List String := plan.steps.map PlanStep.stepId

@[simp] theorem ensure_eq_ok {ok : Bool} {text : String} {u : Unit} :
    ensure ok text = .ok u ↔ ok = true := by
  unfold ensure
  split <;> simp_all

theorem validateSteps_ok {requirePending : Bool} {earlier steps : List PlanStep} {spend total : Nat}
    (h : validateSteps requirePending earlier spend steps = .ok total)
    (hearlier : (earlier.map PlanStep.stepId).Nodup) :
    ((earlier ++ steps).map PlanStep.stepId).Nodup ∧
      (requirePending = true → ∀ step ∈ steps, step.status = .pending) := by
  induction steps generalizing earlier spend with
  | nil => simpa using hearlier
  | cons step rest ih =>
    simp only [validateSteps, bind_eq_ok, ensure_eq_ok] at h
    obtain ⟨-, -, -, hnew, -, hpending, hrest⟩ := h
    have hids : ((earlier ++ [step]).map PlanStep.stepId).Nodup := by
      simp only [List.map_append, List.map_cons, List.map_nil]
      refine List.Nodup.append hearlier (List.nodup_singleton _) (List.disjoint_singleton.2 ?_)
      simpa using hnew
    obtain ⟨hnodup, hall⟩ := ih hrest hids
    refine ⟨by simpa using hnodup, fun hreq => ?_⟩
    rw [List.forall_mem_cons]
    refine ⟨?_, hall hreq⟩
    simp only [hreq, Bool.true_and, Bool.not_eq_true', Bool.or_eq_false_iff] at hpending
    simpa using hpending.1

theorem validatePlanProposal_ok {plan : PlanProposal} {u : Unit}
    (h : validatePlanProposal plan true = .ok u) :
    plan.stepIds.Nodup ∧ ∀ step ∈ plan.steps, step.status = .pending := by
  simp only [validatePlanProposal, bind_eq_ok, ensure_eq_ok] at h
  obtain ⟨-, -, -, -, -, -, -, -, -, -, -, -, -, -, _, hsteps, -⟩ := h
  obtain ⟨hids, hpending⟩ := validateSteps_ok hsteps List.nodup_nil
  exact ⟨by simpa [PlanProposal.stepIds] using hids, hpending rfl⟩

theorem validatePlanAction_ok {action : PlanAction} {plan : PlanProposal} {u : Unit}
    (h : validatePlanAction action = .ok u) (hkind : action.kind = .propose ∨ action.kind = .revise)
    (hplan : action.plan = some plan) :
    plan.stepIds.Nodup ∧ ∀ step ∈ plan.steps, step.status = .pending := by
  unfold validatePlanAction at h
  split at h
  · simp [bind_eq_ok] at h
  · simp only [bind_eq_ok, ensure_eq_ok] at h
    obtain ⟨-, -, -, -, -, -, -, -, -, -, h⟩ := h
    have hfields : validatePlanProposal plan true = .ok u := by
      rcases hkind with hkind | hkind <;>
        · simp only [validateFields, hkind, hplan, bind_eq_ok, ensure_eq_ok] at h
          exact h.choose_spec.2
    exact validatePlanProposal_ok hfields

variable {head next : PlanHead} {action : PlanAction} {actor : PlanActor} {context : PlanContext}

inductive StepMoves (head : PlanHead) (action : PlanAction) (actor : PlanActor)
    (context : PlanContext) (step : PlanStep) : PlanStepStatus → List PlanApprovalRecord → Prop
  | ask (hrun : actorCanRunStep head actor step = true) :
      StepMoves head action actor context step .waitingApproval []
  | approve (hadmin : actor.role = .admin) (hkind : action.kind = .approveStep) :
      StepMoves head action actor context step .approved
        [record head actor context .step (some step.stepId) .approved action.note]
  | reject (hadmin : actor.role = .admin) (hkind : action.kind = .rejectStep) :
      StepMoves head action actor context step .skipped
        [record head actor context .step (some step.stepId) .rejected action.note]
  | update {to_ : PlanStepStatus} (hrun : actorCanRunStep head actor step = true)
      (hto : stepTransitionAllowed step to_ = true) : StepMoves head action actor context step to_ []

inductive Moves (head : PlanHead) (action : PlanAction) (actor : PlanActor) (context : PlanContext) :
    PlanHead → Prop
  | revise {plan : PlanProposal} {records : List PlanApprovalRecord} (hkind : action.kind = .revise)
      (hplan : action.plan = some plan) (hstatus : head.status = .proposed)
      (hrecords : ∀ r ∈ records, r.decision = .edited) :
      Moves head action actor context { head with
        plan
        revision := min (2 ^ 32 - 1) (head.revision + 1)
        approvals := head.approvals ++ records }
  | approve (hkind : action.kind = .approve) (hadmin : actor.role = .admin)
      (hstatus : head.status = .proposed) :
      Moves head action actor context { head with
        status := .approved
        approvals := head.approvals ++ [record head actor context .plan none .approved action.note] }
  | reject (hkind : action.kind = .reject) (hadmin : actor.role = .admin) :
      Moves head action actor context { head with
        status := .rejected
        approvals := head.approvals ++ [record head actor context .plan none .rejected action.note] }
  | cancel (hkind : action.kind = .cancel) :
      Moves head action actor context { head with
        status := .cancelled
        approvals := head.approvals ++ [record head actor context .plan none .cancelled action.note] }
  | step {index : Nat} {step : PlanStep} {to_ : PlanStepStatus} {records : List PlanApprovalRecord}
      (hkind : action.kind ≠ .propose ∧ action.kind ≠ .revise) (hstatus : head.status = .approved)
      (hstep : head.plan.steps[index]? = some step)
      (hmoves : StepMoves head action actor context step to_ records) :
      Moves head action actor context { setStep head action index step to_ with
        approvals := head.approvals ++ records }

@[simp] theorem requireCofounder_eq_ok {what : String} {u : Unit} :
    requireCofounder context what = .ok u ↔ context.cofounderEnabled = true := by
  unfold requireCofounder forbidden
  split <;> simp_all

@[simp] theorem requireAdmin_eq_ok {what : String} {u : Unit} :
    requireAdmin actor what = .ok u ↔ actor.role = .admin := by
  unfold requireAdmin forbidden
  split <;> simp_all

@[simp] theorem requireApproved_eq_ok {u : Unit} :
    requireApproved head = .ok u ↔ head.status = .approved := by
  unfold requireApproved conflict
  split <;> simp_all

@[simp] theorem checkRevision_eq_ok {u : Unit} :
    checkRevision head action = .ok u ↔ action.revision = some head.revision := by
  unfold checkRevision conflict
  split <;> simp_all

theorem findStep_eq_ok {stepId : String} {found : Nat × PlanStep} (h : findStep head stepId = .ok found) :
    head.plan.steps[found.1]? = some found.2 ∧ found.2.stepId = stepId := by
  simp only [findStep, invalid] at h
  split at h
  case h_2 => cases h
  case h_1 step hstep =>
    obtain rfl := Except.ok.inj h
    obtain ⟨hlt, hget⟩ := List.getElem?_eq_some_iff.1 hstep
    have hfound := @List.findIdx_getElem _ _ _ hlt
    rw [hget] at hfound
    exact ⟨hstep, by simpa using hfound⟩

theorem pushRecord_eq_ok {scope : PlanApprovalScope} {stepId : Option String} {decision : PlanDecision}
    {note : Option String} (h : pushRecord head actor context scope stepId decision note = .ok next) :
    next = { head with
      approvals := head.approvals ++ [record head actor context scope stepId decision note] } := by
  unfold pushRecord conflict at h
  split at h
  · cases h
  · exact (Except.ok.inj h).symm

theorem actorCanRunStep_owner {step : PlanStep} (h : actorCanRunStep head actor step = true)
    (howner : step.owner.kind = .owner) : actor.role = .admin := by
  by_contra hrole
  simp [actorCanRunStep, hrole, howner] at h

theorem StepMoves.owner {step : PlanStep} {to_ : PlanStepStatus} {records : List PlanApprovalRecord}
    (h : StepMoves head action actor context step to_ records) (howner : step.owner.kind = .owner) :
    actor.role = .admin := by
  cases h with
  | ask hrun => exact actorCanRunStep_owner hrun howner
  | approve hadmin => exact hadmin
  | reject hadmin => exact hadmin
  | update hrun => exact actorCanRunStep_owner hrun howner

theorem revise_moves (hkind : action.kind = .revise) (h : revise head action actor context = .ok next) :
    Moves head action actor context next := by
  unfold revise at h
  split at h
  · cases h
  · rename_i hstatus
    simp only [bind_eq_ok] at h
    obtain ⟨-, -, h⟩ := h
    split at h
    · simp [bind_eq_ok, forbidden] at h
    · split at h
      · cases h
      · rename_i hplan
        split at h
        · obtain rfl := Except.ok.inj h
          simpa using @Moves.revise _ _ _ _ _ [] hkind hplan (by simpa using hstatus) (by simp)
        · rw [pushRecord_eq_ok h]
          exact .revise hkind hplan (by simpa using hstatus) (by simp [record])

theorem approve_moves (hkind : action.kind = .approve) (h : approve head action actor context = .ok next) :
    Moves head action actor context next := by
  unfold approve at h
  simp only [bind_eq_ok, requireAdmin_eq_ok] at h
  obtain ⟨-, hadmin, h⟩ := h
  split at h
  · simp [bind_eq_ok, conflict] at h
  · rename_i hstatus
    simp only [bind_eq_ok] at h
    obtain ⟨-, -, -, -, h⟩ := h
    rw [pushRecord_eq_ok h]
    exact .approve hkind hadmin (by simpa using hstatus)

theorem reject_moves (hkind : action.kind = .reject) (h : reject head action actor context = .ok next) :
    Moves head action actor context next := by
  unfold reject at h
  simp only [bind_eq_ok, requireAdmin_eq_ok] at h
  obtain ⟨-, hadmin, h⟩ := h
  split at h
  · simp [bind_eq_ok, conflict] at h
  · simp only [bind_eq_ok] at h
    obtain ⟨-, -, h⟩ := h
    rw [pushRecord_eq_ok h]
    exact .reject hkind hadmin

theorem cancel_moves (hkind : action.kind = .cancel) (h : cancel head action actor context = .ok next) :
    Moves head action actor context next := by
  unfold cancel at h
  split at h
  · simp [bind_eq_ok, forbidden] at h
  · rw [pushRecord_eq_ok h]
    exact .cancel hkind

theorem requestStepApproval_moves (hkind : action.kind = .requestStepApproval)
    (h : requestStepApproval head action actor = .ok next) : Moves head action actor context next := by
  simp only [requestStepApproval, bind_eq_ok, requireApproved_eq_ok] at h
  obtain ⟨-, hstatus, found, hfound, h⟩ := h
  split at h
  · simp [bind_eq_ok, forbidden] at h
  · rename_i hrun
    split at h
    · simp [bind_eq_ok, conflict] at h
    · split at h
      · simp [conflict] at h
      · obtain rfl := Except.ok.inj h
        simpa [setStep] using Moves.step (by simp [hkind]) hstatus (findStep_eq_ok hfound).1
          (.ask (by simpa using hrun))

theorem decideStep_moves (hkind : action.kind = .approveStep ∨ action.kind = .rejectStep)
    (h : decideStep head action actor context = .ok next) : Moves head action actor context next := by
  simp only [decideStep, bind_eq_ok, requireAdmin_eq_ok, requireApproved_eq_ok] at h
  obtain ⟨-, hadmin, -, hstatus, found, hfound, h⟩ := h
  obtain ⟨hstep, hid⟩ := findStep_eq_ok hfound
  split at h
  · simp [bind_eq_ok, conflict] at h
  · split at h
    · simp [bind_eq_ok, conflict] at h
    · rw [pushRecord_eq_ok h, ← hid]
      rcases hkind with hkind | hkind
      · simpa [hkind, setStep, record] using
          Moves.step (by simp [hkind]) hstatus hstep (.approve hadmin hkind)
      · simpa [hkind, setStep, record] using
          Moves.step (by simp [hkind]) hstatus hstep (.reject hadmin hkind)

theorem updateStep_moves (hkind : action.kind = .updateStep)
    (h : updateStep head action actor = .ok next) : Moves head action actor context next := by
  simp only [updateStep, bind_eq_ok, requireApproved_eq_ok] at h
  obtain ⟨-, hstatus, found, hfound, h⟩ := h
  split at h
  · simp [bind_eq_ok, forbidden] at h
  · rename_i hrun
    split at h
    · cases h
    · split at h
      · rename_i hto
        obtain rfl := Except.ok.inj h
        simpa [setStep] using Moves.step (by simp [hkind]) hstatus (findStep_eq_ok hfound).1
          (.update (by simpa using hrun) hto)
      · split at h <;> cases h

theorem applyKind_moves (h : applyKind head action actor context = .ok next) :
    Moves head action actor context next := by
  unfold applyKind at h
  split at h
  case h_1 => cases h
  case h_2 hkind => exact revise_moves hkind h
  case h_3 hkind => exact approve_moves hkind h
  case h_4 hkind => exact reject_moves hkind h
  case h_5 hkind => exact cancel_moves hkind h
  case h_6 hkind => exact requestStepApproval_moves hkind h
  case h_7 hkind => exact decideStep_moves (.inl hkind) h
  case h_8 hkind => exact decideStep_moves (.inr hkind) h
  case h_9 hkind => exact updateStep_moves hkind h

theorem applyPlanAction_moves (h : applyPlanAction action actor context (some head) = .ok next) :
    validatePlanAction action = .ok () ∧ head.status.isOpen = true ∧
      ∃ mid, Moves head action actor context mid ∧ next = finish actor context mid := by
  unfold applyPlanAction at h
  split at h
  · cases h
  · rename_i hvalid
    simp only at h
    split_ifs at h with hkind hplan hopen
    · cases h
    · cases h
    · cases h
    · obtain ⟨mid, hmid, rfl⟩ := map_eq_ok.1 h
      exact ⟨hvalid, by simpa using hopen, mid, applyKind_moves hmid, rfl⟩

theorem applyPlanAction_none (h : applyPlanAction action actor context none = .ok next) :
    validatePlanAction action = .ok () ∧ action.kind = .propose ∧ action.plan = some next.plan ∧
      next.status = .proposed ∧ next.revision = 1 ∧ next.approvals = [] := by
  unfold applyPlanAction at h
  split at h
  · cases h
  · rename_i hvalid
    simp only [propose] at h
    split at h
    · cases h
    · rename_i hkind
      simp only [bind_eq_ok] at h
      obtain ⟨-, -, h⟩ := h
      split at h
      · cases h
      · rename_i hplan
        obtain rfl := Except.ok.inj h
        exact ⟨hvalid, by simpa using hkind, hplan, rfl, rfl, rfl⟩

structure Call where
  action : PlanAction
  actor : PlanActor
  context : PlanContext
  deriving DecidableEq

structure Plan where
  head : Option PlanHead
  log : List Call
  deriving DecidableEq

def Plan.call (x : Plan) (c : Call) : Plan :=
  match applyPlanAction c.action c.actor c.context x.head with
  | .ok head => ⟨some head, x.log ++ [c]⟩
  | .error _ => x

def run (calls : List Call) : Plan := runFrom Plan.call ⟨none, []⟩ calls

def contents (log : List Call) : List PlanProposal :=
  log.filterMap fun c => if c.action.kind = .propose ∨ c.action.kind = .revise then c.action.plan else none

def revisions (log : List Call) : Nat := log.countP fun c => c.action.kind = .revise

def PlanActionKind.decision : PlanActionKind → Option (PlanApprovalScope × PlanDecision)
  | .approve => some (.plan, .approved)
  | .reject => some (.plan, .rejected)
  | .approveStep => some (.step, .approved)
  | .rejectStep => some (.step, .rejected)
  | _ => none

def ByAdmin (log : List Call) (r : PlanApprovalRecord) : Prop :=
  ∃ c ∈ log, c.actor.role = .admin ∧ c.action.kind.decision = some (r.scope, r.decision) ∧
    r.actorPubkey = c.actor.pubkey ∧ r.at_ = c.context.now ∧
    r.actionEventId = c.context.actionEventId

def PlanStatus.Agreed (status : PlanStatus) : Prop := status = .approved ∨ status = .completed

def PlanStepStatus.Cleared (status : PlanStepStatus) : Prop :=
  status = .approved ∨ status = .inProgress ∨ status = .done ∨ status = .failed

def StepApproved (log : List Call) (approvals : List PlanApprovalRecord) (stepId : String) : Prop :=
  ∃ r ∈ approvals, r.scope = .step ∧ r.stepId = some stepId ∧ r.decision = .approved ∧ ByAdmin log r

structure Sound (log : List Call) (head : PlanHead) : Prop where
  counted : (contents log).length = revisions log + 1
  revision : head.revision = min (2 ^ 32 - 1) (revisions log + 1)
  content : ∃ plan, (contents log).getLast? = some plan ∧ head.plan.content = plan.content
  ids : head.plan.stepIds.Nodup
  agreed : head.status.Agreed → ∃ r ∈ head.approvals, r.scope = .plan ∧ r.decision = .approved ∧
    r.revision = head.revision ∧ ByAdmin log r
  gated : ∀ step ∈ head.plan.steps, step.approvalPoint.isSome → step.status.Cleared →
    StepApproved log head.approvals step.stepId
  admins : ∀ r ∈ head.approvals, r.decision = .approved ∨ r.decision = .rejected → ByAdmin log r
  pending : head.status = .proposed → ∀ step ∈ head.plan.steps, step.status = .pending

variable {log : List Call} {c : Call}

theorem contents_concat : contents (log ++ [c]) = contents log ++
    (if c.action.kind = .propose ∨ c.action.kind = .revise then c.action.plan else none).toList := by
  unfold contents
  rw [List.filterMap_append, List.filterMap_cons]
  split <;> simp_all

theorem revisions_concat :
    revisions (log ++ [c]) = revisions log + if c.action.kind = .revise then 1 else 0 := by
  simp [revisions, List.countP_append]

theorem ByAdmin.concat {r : PlanApprovalRecord} (h : ByAdmin log r) : ByAdmin (log ++ [c]) r := by
  obtain ⟨c', hc, hrest⟩ := h
  exact ⟨c', List.mem_append_left _ hc, hrest⟩

theorem byAdmin_record {scope : PlanApprovalScope} {stepId : Option String} {decision : PlanDecision}
    {note : Option String} (hadmin : c.actor.role = .admin)
    (hkind : c.action.kind.decision = some (scope, decision)) :
    ByAdmin (log ++ [c]) (record head c.actor c.context scope stepId decision note) :=
  ⟨c, by simp, hadmin, hkind, rfl, rfl, rfl⟩

theorem StepApproved.more {approvals records : List PlanApprovalRecord} {stepId : String}
    (h : StepApproved log approvals stepId) : StepApproved (log ++ [c]) (approvals ++ records) stepId := by
  obtain ⟨r, hr, hscope, hid, hdecision, hby⟩ := h
  exact ⟨r, List.mem_append_left _ hr, hscope, hid, hdecision, hby.concat⟩

@[simp] theorem finish_agreed {mid : PlanHead} :
    (finish actor context mid).status.Agreed ↔ mid.status.Agreed := by
  simp only [finish, PlanStatus.Agreed]
  split <;> simp_all

@[simp] theorem finish_proposed {mid : PlanHead} :
    (finish actor context mid).status = .proposed ↔ mid.status = .proposed := by
  simp only [finish]
  split <;> simp_all

theorem Sound.finish {mid : PlanHead} (h : Sound log mid) : Sound log (finish actor context mid) where
  counted := h.counted
  revision := h.revision
  content := h.content
  ids := h.ids
  agreed hagreed := h.agreed (finish_agreed.1 hagreed)
  gated := h.gated
  admins := h.admins
  pending hproposed := h.pending (finish_proposed.1 hproposed)

theorem sound_propose (h : applyPlanAction c.action c.actor c.context none = .ok next) :
    Sound [c] next := by
  obtain ⟨hvalid, hkind, hplan, hstatus, hrevision, happrovals⟩ := applyPlanAction_none h
  obtain ⟨hids, hpending⟩ := validatePlanAction_ok hvalid (.inl hkind) hplan
  have hcontents : contents [c] = [next.plan] := by simp [contents, hkind, hplan]
  have hnone : revisions [c] = 0 := by simp [revisions, hkind]
  exact {
    counted := by rw [hcontents, hnone]; rfl
    revision := by rw [hrevision, hnone]; rfl
    content := ⟨next.plan, by rw [hcontents]; rfl, rfl⟩
    ids := hids
    agreed := fun h => absurd h (by simp [PlanStatus.Agreed, hstatus])
    gated := fun step hstep _ hcleared => absurd hcleared
      (by simp [PlanStepStatus.Cleared, hpending step hstep])
    admins := by simp [happrovals]
    pending := fun _ => hpending }

theorem Sound.admins_append (h : Sound log head) {records : List PlanApprovalRecord}
    (hrecords : ∀ r ∈ records, r.decision = .approved ∨ r.decision = .rejected → ByAdmin (log ++ [c]) r) :
    ∀ r ∈ head.approvals ++ records, r.decision = .approved ∨ r.decision = .rejected →
      ByAdmin (log ++ [c]) r := by
  intro r hr hdecision
  rcases List.mem_append.1 hr with hr | hr
  · exact (h.admins r hr hdecision).concat
  · exact hrecords r hr hdecision

theorem Sound.revised (h : Sound log head) {plan : PlanProposal} {records : List PlanApprovalRecord}
    (hvalid : validatePlanAction c.action = .ok ()) (hkind : c.action.kind = .revise)
    (hplan : c.action.plan = some plan) (hstatus : head.status = .proposed)
    (hrecords : ∀ r ∈ records, r.decision = .edited) :
    Sound (log ++ [c]) { head with
      plan
      revision := min (2 ^ 32 - 1) (head.revision + 1)
      approvals := head.approvals ++ records } := by
  obtain ⟨hids, hpending⟩ := validatePlanAction_ok hvalid (.inr hkind) hplan
  have hcontents : contents (log ++ [c]) = contents log ++ [plan] := by
    simp [contents_concat, hkind, hplan]
  have hrevisions : revisions (log ++ [c]) = revisions log + 1 := by simp [revisions_concat, hkind]
  exact {
    counted := by simp [hcontents, hrevisions, h.counted]
    revision := by
      simp only [hrevisions, h.revision]
      omega
    content := ⟨plan, by simp [hcontents], rfl⟩
    ids := hids
    agreed := fun hagreed => absurd hagreed (by simp [PlanStatus.Agreed, hstatus])
    gated := fun step hstep _ hcleared => absurd hcleared
      (by simp [PlanStepStatus.Cleared, hpending step hstep])
    admins := h.admins_append fun r hr hdecision => by
      rw [hrecords r hr] at hdecision
      simp at hdecision
    pending := fun _ => hpending }

theorem Sound.same_content (h : Sound log head)
    (hkind : c.action.kind ≠ .propose ∧ c.action.kind ≠ .revise)
    (hrevision : next.revision = head.revision) (hcontent : next.plan.content = head.plan.content)
    (hids : next.plan.stepIds = head.plan.stepIds)
    (hagreed : next.status.Agreed → ∃ r ∈ next.approvals, r.scope = .plan ∧ r.decision = .approved ∧
      r.revision = next.revision ∧ ByAdmin (log ++ [c]) r)
    (hgated : ∀ step ∈ next.plan.steps, step.approvalPoint.isSome → step.status.Cleared →
      StepApproved (log ++ [c]) next.approvals step.stepId)
    (hadmins : ∀ r ∈ next.approvals, r.decision = .approved ∨ r.decision = .rejected →
      ByAdmin (log ++ [c]) r)
    (hproposed : next.status ≠ .proposed) : Sound (log ++ [c]) next := by
  have hcontents : contents (log ++ [c]) = contents log := by simp [contents_concat, hkind]
  have hrevisions : revisions (log ++ [c]) = revisions log := by simp [revisions_concat, hkind.2]
  exact {
    counted := by rw [hcontents, hrevisions, h.counted]
    revision := by rw [hrevision, hrevisions, h.revision]
    content := by rw [hcontents, hcontent]; exact h.content
    ids := hids ▸ h.ids
    agreed := hagreed
    gated := hgated
    admins := hadmins
    pending := fun hstatus => absurd hstatus hproposed }

theorem Sound.decided (h : Sound log head) {status : PlanStatus} {decision : PlanDecision}
    {note : Option String} (hkind : c.action.kind ≠ .propose ∧ c.action.kind ≠ .revise)
    (hstatus : status ≠ .proposed) (hagreed : status.Agreed → decision = .approved)
    (hby : decision = .approved ∨ decision = .rejected →
      c.actor.role = .admin ∧ c.action.kind.decision = some (.plan, decision)) :
    Sound (log ++ [c]) { head with
      status
      approvals := head.approvals ++ [record head c.actor c.context .plan none decision note] } := by
  have hadmin : decision = .approved ∨ decision = .rejected →
      ByAdmin (log ++ [c]) (record head c.actor c.context .plan none decision note) :=
    fun hdecision => byAdmin_record (hby hdecision).1 (hby hdecision).2
  refine h.same_content hkind rfl rfl rfl (fun ha => ?_) (fun step hstep hpoint hcleared => ?_) ?_ hstatus
  · have hdecision := hagreed ha
    exact ⟨_, by simp, rfl, hdecision, rfl, hadmin (.inl hdecision)⟩
  · exact (h.gated step hstep hpoint hcleared).more
  · refine h.admins_append fun r hr hdecision => ?_
    obtain rfl := List.mem_singleton.1 hr
    exact hadmin hdecision

theorem map_set_of_eq {α β : Type} {f : α → β} {l : List α} {i : Nat} {a b : α} (h : l[i]? = some a)
    (hf : f b = f a) : (l.set i b).map f = l.map f := by
  refine List.ext_getElem? fun j => ?_
  rw [List.getElem?_map, List.getElem?_map, List.getElem?_set]
  split
  · subst j
    split <;> simp_all
  · rfl

theorem cleared_of_transition {step : PlanStep} {to_ : PlanStepStatus}
    (h : stepTransitionAllowed step to_ = true) (hpoint : step.approvalPoint.isSome)
    (hto : to_.Cleared) : step.status.Cleared := by
  unfold stepTransitionAllowed at h
  unfold PlanStepStatus.Cleared at *
  split at h <;> simp_all

theorem StepMoves.approved {step : PlanStep} {to_ : PlanStepStatus} {records : List PlanApprovalRecord}
    (h : StepMoves head c.action c.actor c.context step to_ records)
    (hbefore : step.status.Cleared → StepApproved log head.approvals step.stepId)
    (hpoint : step.approvalPoint.isSome) (hto : to_.Cleared) :
    StepApproved (log ++ [c]) (head.approvals ++ records) step.stepId := by
  cases h with
  | ask => simp [PlanStepStatus.Cleared] at hto
  | approve hadmin hkind =>
    exact ⟨_, List.mem_append_right _ (List.mem_singleton_self _), rfl, rfl, rfl,
      byAdmin_record hadmin (by rw [hkind]; rfl)⟩
  | reject => simp [PlanStepStatus.Cleared] at hto
  | update _ hallowed => exact (hbefore (cleared_of_transition hallowed hpoint hto)).more

theorem StepMoves.admins {step : PlanStep} {to_ : PlanStepStatus} {records : List PlanApprovalRecord}
    (h : StepMoves head c.action c.actor c.context step to_ records) :
    ∀ r ∈ records, ByAdmin (log ++ [c]) r := by
  cases h with
  | ask | update => simp
  | approve hadmin hkind =>
    rw [List.forall_mem_singleton]
    exact byAdmin_record hadmin (by rw [hkind]; rfl)
  | reject hadmin hkind =>
    rw [List.forall_mem_singleton]
    exact byAdmin_record hadmin (by rw [hkind]; rfl)

theorem Sound.stepped (h : Sound log head) {index : Nat} {step : PlanStep} {to_ : PlanStepStatus}
    {records : List PlanApprovalRecord}
    (hkind : c.action.kind ≠ .propose ∧ c.action.kind ≠ .revise) (hstatus : head.status = .approved)
    (hstep : head.plan.steps[index]? = some step)
    (hmoves : StepMoves head c.action c.actor c.context step to_ records) :
    Sound (log ++ [c]) { setStep head c.action index step to_ with
      approvals := head.approvals ++ records } := by
  refine h.same_content hkind rfl ?_ ?_ (fun _ => ?_) (fun s hs hpoint hcleared => ?_) ?_
    (by simp [setStep, hstatus])
  · have hsteps := map_set_of_eq (f := PlanStep.content)
      (b := { step with status := to_, note := c.action.note <|> step.note }) hstep rfl
    simp only [setStep, PlanProposal.content, hsteps]
  · exact map_set_of_eq hstep rfl
  · obtain ⟨r, hr, hscope, hdecision, hrevision, hby⟩ := h.agreed (.inl hstatus)
    exact ⟨r, List.mem_append_left _ hr, hscope, hdecision, hrevision, hby.concat⟩
  · rcases List.mem_or_eq_of_mem_set hs with hs | rfl
    · exact (h.gated s hs hpoint hcleared).more
    · exact hmoves.approved (h.gated step (List.mem_of_getElem? hstep) hpoint) hpoint hcleared
  · exact h.admins_append fun r hr _ => hmoves.admins r hr

theorem Sound.moves (h : Sound log head) (hvalid : validatePlanAction c.action = .ok ())
    (hmoves : Moves head c.action c.actor c.context next) : Sound (log ++ [c]) next := by
  cases hmoves with
  | revise hkind hplan hstatus hrecords => exact h.revised hvalid hkind hplan hstatus hrecords
  | approve hkind hadmin _ =>
    exact h.decided (by simp [hkind]) (by simp) (fun _ => rfl) fun _ => ⟨hadmin, by rw [hkind]; rfl⟩
  | reject hkind hadmin =>
    exact h.decided (by simp [hkind]) (by simp) (by simp [PlanStatus.Agreed])
      fun _ => ⟨hadmin, by rw [hkind]; rfl⟩
  | cancel hkind => exact h.decided (by simp [hkind]) (by simp) (by simp [PlanStatus.Agreed]) (by simp)
  | step hkind hstatus hstep hmoves => exact h.stepped hkind hstatus hstep hmoves

/-- What the run has come to: nothing, or a plan that is sound for the calls accepted. -/
def Plan.Sound (x : Plan) : Prop :=
  match x.head with
  | none => x.log = []
  | some head => Plans.Sound x.log head

theorem Plan.Sound.call {x : Plan} (h : x.Sound) (c : Call) : (x.call c).Sound := by
  unfold Plan.call
  split
  case h_2 => exact h
  case h_1 next hnext =>
    obtain ⟨head, log⟩ := x
    cases head with
    | none =>
      obtain rfl : log = [] := h
      exact sound_propose hnext
    | some head =>
      obtain ⟨hvalid, -, mid, hmid, rfl⟩ := applyPlanAction_moves hnext
      exact (Plans.Sound.moves h hvalid hmid).finish

theorem sound_run (calls : List Call) : (run calls).Sound :=
  runFrom_history (p := fun _ x => Plan.Sound x) (s := ⟨none, []⟩) rfl (fun _ c h => h.call c) calls

theorem Moves.owner_step (h : Moves head action actor context next)
    (hvalid : validatePlanAction action = .ok ()) (hids : head.plan.stepIds.Nodup)
    (hpending : head.status = .proposed → ∀ step ∈ head.plan.steps, step.status = .pending)
    {step step' : PlanStep} (hstep : step ∈ head.plan.steps) (hstep' : step' ∈ next.plan.steps)
    (hid : step'.stepId = step.stepId) (howner : step.owner.kind = .owner) :
    actor.role = .admin ∨ step'.status = step.status := by
  cases h with
  | revise hkind hplan hstatus =>
    obtain ⟨-, hnew⟩ := validatePlanAction_ok hvalid (.inr hkind) hplan
    exact .inr ((hnew step' hstep').trans (hpending hstatus step hstep).symm)
  | approve _ hadmin _ => exact .inl hadmin
  | reject _ hadmin => exact .inl hadmin
  | cancel => exact .inr (congrArg _ (List.inj_on_of_nodup_map hids hstep' hstep hid))
  | step _ _ hold hmoves =>
    rcases List.mem_or_eq_of_mem_set hstep' with hstep' | rfl
    · exact .inr (congrArg _ (List.inj_on_of_nodup_map hids hstep' hstep hid))
    · obtain rfl := List.inj_on_of_nodup_map hids (List.mem_of_getElem? hold) hstep hid
      exact .inl (hmoves.owner howner)

theorem Plan.call_ended {x : Plan} (hhead : x.head = some head) (hended : head.status.isOpen = false)
    (c : Call) : x.call c = x := by
  unfold Plan.call
  rw [hhead]
  split
  case h_1 hnext => exact absurd (applyPlanAction_moves hnext).2.1 (by simp [hended])
  case h_2 => rfl

theorem run_ended {calls : List Call} (hhead : (run calls).head = some head)
    (hended : head.status.isOpen = false) (more : List Call) : run (calls ++ more) = run calls := by
  unfold run at *
  rw [runFrom_append]
  induction more with
  | nil => rfl
  | cons c more ih => rw [runFrom_cons, Plan.call_ended hhead hended, ih]

/-- In every run with fewer revisions than a counter holds, what an agreed plan says was proposed or
revised at the revision that an admin approved; what passed an approval point was approved by an
admin; decisions are admins'; people's steps move by admins; a proposal has not begun, and what has
ended stays. -/
theorem run_approvals (calls : List Call) (hrevisions : revisions (run calls).log < 2 ^ 32 - 1)
    {head : PlanHead} (hhead : (run calls).head = some head) :
    (head.status = .approved ∨ head.status = .completed →
      (∃ r ∈ head.approvals, r.scope = .plan ∧ r.decision = .approved ∧
        r.revision = head.revision ∧ ByAdmin (run calls).log r) ∧
      ∃ plan, (contents (run calls).log)[head.revision - 1]? = some plan ∧
        head.plan.content = plan.content) ∧
    (∀ step ∈ head.plan.steps, step.approvalPoint.isSome →
      step.status = .approved ∨ step.status = .inProgress ∨ step.status = .done ∨
        step.status = .failed →
      ∃ r ∈ head.approvals, r.scope = .step ∧ r.stepId = some step.stepId ∧
        r.decision = .approved ∧ ByAdmin (run calls).log r) ∧
    (∀ r ∈ head.approvals, r.decision = .approved ∨ r.decision = .rejected →
      ByAdmin (run calls).log r) ∧
    (∀ (c : Call) (next : PlanHead),
      applyPlanAction c.action c.actor c.context (some head) = .ok next →
      ∀ step ∈ head.plan.steps, ∀ step' ∈ next.plan.steps, step'.stepId = step.stepId →
        step.owner.kind = .owner → step'.status ≠ step.status → c.actor.role = .admin) ∧
    (head.status = .proposed → ∀ step ∈ head.plan.steps, step.status = .pending) ∧
    (head.status = .completed ∨ head.status = .rejected ∨ head.status = .cancelled →
      ∀ more, (run (calls ++ more)).head = some head) := by
  have hsound : Sound (run calls).log head := by
    have h := sound_run calls
    unfold Plan.Sound at h
    rwa [hhead] at h
  refine ⟨fun hagreed => ⟨hsound.agreed hagreed, ?_⟩, hsound.gated, hsound.admins, ?_,
    hsound.pending, fun hended more => ?_⟩
  · obtain ⟨plan, hlast, hcontent⟩ := hsound.content
    -- below the bound the counter has not stuck, so the last content is that of this revision
    have hrevision : head.revision - 1 = (contents (run calls).log).length - 1 := by
      rw [hsound.counted, hsound.revision]
      omega
    exact ⟨plan, by rw [hrevision, ← List.getLast?_eq_getElem?, hlast], hcontent⟩
  · intro c next hnext step hstep step' hstep' hid howner hchanged
    obtain ⟨hvalid, -, mid, hmid, rfl⟩ := applyPlanAction_moves hnext
    exact (hmid.owner_step hvalid hsound.ids hsound.pending hstep hstep' hid howner).resolve_right
      hchanged
  · have hclosed : head.status.isOpen = false := by
      rcases hended with h | h | h <;> rw [h] <;> rfl
    rw [run_ended hhead hclosed, hhead]

def samplePlan : PlanProposal where
  title := "Ads"
  summary := ""
  function := none
  currency := "ZAR"
  budgetCents := 0
  decideBy := none
  targetLabel := none
  timingLabel := none
  steps := [{
    stepId := "a"
    title := "Buy"
    detail := none
    owner := ⟨.owner, none, none, none⟩
    tools := []
    costLabel := "R5"
    costEstimateCents := 500
    whenLabel := "Now"
    approvalPoint := some ⟨.spend, "Spend"⟩
    status := .pending
    note := none }]

def sampleHead : Option String :=
  some "0000000000000000000000000000000000000000000000000000000000000001"

def sampleAction (kind : PlanActionKind) : PlanAction where
  schemaVersion := 1
  planId := "7f0c3c1e-5b1e-4d52-9a55-3d1f2b6a8c10"
  kind
  plan := none
  revision := none
  stepId := none
  stepStatus := none
  note := none
  expectedHeadEventId := sampleHead

def sampleCalls : List Call :=
  let admin : PlanActor := ⟨"admin", .admin, []⟩
  let context (now : Int) : PlanContext := ⟨now, true, "event"⟩
  [⟨{ sampleAction .propose with plan := some samplePlan, expectedHeadEventId := none },
      ⟨"member", .member, []⟩, context 1⟩,
    ⟨{ sampleAction .approve with revision := some 1 }, admin, context 2⟩,
    ⟨{ sampleAction .approveStep with stepId := some "a" }, admin, context 3⟩,
    ⟨{ sampleAction .updateStep with stepId := some "a", stepStatus := some .done }, admin, context 4⟩]

theorem run_approvals_sample : ∃ head, (run sampleCalls).head = some head ∧
    head.status = .completed ∧
    (∃ r ∈ head.approvals, r.scope = .plan ∧ r.decision = .approved ∧ r.revision = head.revision ∧
      ByAdmin (run sampleCalls).log r) ∧
    ∀ more, (run (sampleCalls ++ more)).head = some head := by
  have hsome : (run sampleCalls).head.isSome = true := by decide +kernel
  obtain ⟨head, hhead⟩ := Option.isSome_iff_exists.1 hsome
  have hstatus : head.status = .completed := by
    have : (run sampleCalls).head.map PlanHead.status = some .completed := by decide +kernel
    simpa [hhead] using this
  obtain ⟨hagreed, -, -, -, -, hended⟩ := run_approvals sampleCalls (by decide +kernel) hhead
  exact ⟨head, hhead, hstatus, (hagreed (.inr hstatus)).1, hended (.inl hstatus)⟩

def Continues (step step' : PlanStep) : Prop :=
  ∃ status note, step' = { step with status, note } ∧
    (optionalTextWithin step.note maxPlanNoteChars → optionalTextWithin note maxPlanNoteChars)

theorem Continues.valid {step step' : PlanStep} (h : Continues step step')
    (hok : validateStep step = .ok ()) : validateStep step' = .ok () := by
  obtain ⟨status, note, rfl, hnote⟩ := h
  simp only [validateStep, bind_eq_ok, ensure_eq_ok, exists_const] at hok ⊢
  obtain ⟨h₁, h₂, h₃, _, h₄, h₅, h₆, h₇, h₈, h₉, hworker⟩ := hok
  exact ⟨h₁, h₂, h₃, _, h₄, h₅, h₆, h₇, h₈, hnote h₉, hworker⟩

theorem validateSteps_continues {requirePending : Bool} {earlier earlier' steps steps' : List PlanStep}
    {spend total : Nat} (hids : earlier'.map PlanStep.stepId = earlier.map PlanStep.stepId)
    (h : List.Forall₂ Continues steps steps')
    (hok : validateSteps requirePending earlier spend steps = .ok total) :
    validateSteps false earlier' spend steps' = .ok total := by
  induction h generalizing earlier earlier' spend with
  | nil => exact hok
  | @cons step step' steps steps' hstep _ ih =>
    simp only [validateSteps, bind_eq_ok, ensure_eq_ok, exists_const] at hok ⊢
    obtain ⟨_, hone, hnew, -, hrest⟩ := hok
    have hone' := hstep.valid hone
    obtain ⟨status, note, rfl, -⟩ := hstep
    refine ⟨_, hone', ?_, rfl, ih (by simp [hids]) hrest⟩
    have hany := congrArg (List.any · (decide <| · = step.stepId)) hids
    simp only [List.any_map, Function.comp_def] at hany
    rwa [hany]

theorem continues_refl (steps : List PlanStep) : List.Forall₂ Continues steps steps :=
  List.forall₂_same.2 fun step _ => ⟨step.status, step.note, rfl, id⟩

theorem validatePlanProposal_continues {requirePending : Bool} {plan : PlanProposal}
    {steps : List PlanStep} (h : List.Forall₂ Continues plan.steps steps)
    (hok : validatePlanProposal plan requirePending = .ok ()) :
    validatePlanProposal { plan with steps } false = .ok () := by
  have hlength := h.length_eq
  simp only [validatePlanProposal, bind_eq_ok, ensure_eq_ok, exists_const] at hok ⊢
  obtain ⟨h₁, h₂, h₃, h₄, h₅, h₆, h₇, spend, hspend, hbudget⟩ := hok
  refine ⟨h₁, h₂, h₃, h₄, h₅, h₆, ?_, spend, validateSteps_continues rfl h hspend, hbudget⟩
  simpa [← hlength, ← List.length_eq_zero_iff] using h₇

theorem validatePlanAction_valid (h : validatePlanAction action = .ok ()) :
    optionalTextWithin action.note maxPlanNoteChars ∧
      ∀ plan ∈ action.plan, validatePlanProposal plan false = .ok () := by
  unfold validatePlanAction at h
  split at h
  · simp [bind_eq_ok] at h
  · simp only [bind_eq_ok, ensure_eq_ok, exists_const] at h
    obtain ⟨-, -, -, -, hnote, -, h⟩ := h
    refine ⟨hnote, fun plan hplan => ?_⟩
    have hproposal : validatePlanProposal plan true = .ok () := by
      unfold validateFields at h
      split at h <;> simp_all [bind_eq_ok]
    exact validatePlanProposal_continues (continues_refl _) hproposal

theorem Moves.plan_valid (h : Moves head action actor context next)
    (hvalid : validatePlanAction action = .ok ())
    (hplan : validatePlanProposal head.plan false = .ok ()) :
    validatePlanProposal next.plan false = .ok () := by
  cases h with
  | revise _ hnew => exact (validatePlanAction_valid hvalid).2 _ hnew
  | approve | reject | cancel => exact hplan
  | @step index step to_ _ _ _ hstep =>
    refine validatePlanProposal_continues (List.forall₂_iff_get.2 ⟨by simp, fun i hi hi' => ?_⟩) hplan
    obtain ⟨hlt, rfl⟩ := List.getElem?_eq_some_iff.1 hstep
    by_cases hindex : index = i
    · subst hindex
      refine ⟨to_, action.note <|> head.plan.steps[index].note, by simp, fun hold => ?_⟩
      have hnew := (validatePlanAction_valid hvalid).1
      cases hnote : action.note with
      | none => exact hold
      | some note => rwa [hnote] at hnew
    · exact ⟨_, _, by simp [hindex]; rfl, id⟩

/-- The plan that is there would be accepted again, but for the progress of its steps. -/
def Plan.Valid (x : Plan) : Prop :=
  ∀ head ∈ x.head, validatePlanProposal head.plan false = .ok ()

theorem Plan.Valid.call {x : Plan} (h : x.Valid) (c : Call) : (x.call c).Valid := by
  unfold Plan.call
  split
  case h_2 => exact h
  case h_1 next hnext =>
    rintro _ ⟨⟩
    cases hhead : x.head with
    | none =>
      rw [hhead] at hnext
      obtain ⟨hvalid, -, hplan, -⟩ := applyPlanAction_none hnext
      exact (validatePlanAction_valid hvalid).2 _ hplan
    | some head =>
      rw [hhead] at hnext
      obtain ⟨hvalid, -, mid, hmid, rfl⟩ := applyPlanAction_moves hnext
      exact hmid.plan_valid hvalid (h head hhead)

/-- In every run the plan stays valid: its steps are apart, what they spend without an approval is
within the budget, and no worker spends. -/
theorem run_valid (calls : List Call) : (run calls).Valid :=
  runFrom_history (p := fun _ x => Plan.Valid x) (s := ⟨none, []⟩) (fun _ h => by cases h)
    (fun _ c h => h.call c) calls

end Colony.Plans
