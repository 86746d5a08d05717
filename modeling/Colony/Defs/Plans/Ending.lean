import Colony.Defs.Plans.Laws

namespace Colony.Plans

open Colony.Core Colony.Data

section Decisions

variable {head : PlanHead} {action : PlanAction} {actor : PlanActor} {context : PlanContext}

theorem pushRecord_full (head : PlanHead) (hfull : maxPlanApprovals ≤ head.approvals.length)
    (scope : PlanApprovalScope) (stepId : Option String) (decision : PlanDecision) (note : Option String) :
    pushRecord head actor context scope stepId decision note =
      conflict "this plan's approval record is full" := by
  rw [pushRecord, if_pos hfull]

theorem pushRecord_room (head : PlanHead) (hroom : head.approvals.length < maxPlanApprovals)
    (scope : PlanApprovalScope) (stepId : Option String) (decision : PlanDecision) (note : Option String) :
    pushRecord head actor context scope stepId decision note = .ok { head with
      approvals := head.approvals ++ [record head actor context scope stepId decision note] } := by
  rw [pushRecord, if_neg (Nat.not_le.2 hroom)]

theorem applyPlanAction_open (hvalid : validatePlanAction action = .ok ())
    (hkind : action.kind ≠ .propose) (hid : head.planId = action.planId)
    (hopen : head.status.isOpen = true) :
    applyPlanAction action actor context (some head) =
      (applyKind head action actor context).map (finish actor context) := by
  rw [applyPlanAction, hvalid]
  simp only [hkind, hid, hopen, ne_eq, not_true_eq_false, Bool.not_true, Bool.false_eq_true, if_false]

/-- What an admin decides of a plan as a whole: the end of an open one, and at its revision the
rejection of a proposed one and, in co-founder mode, its approval. -/
inductive Decides (head : PlanHead) (action : PlanAction) (context : PlanContext) : PlanStatus → Prop
  | cancel (hkind : action.kind = .cancel) : Decides head action context .cancelled
  | reject (hkind : action.kind = .reject) (hproposed : head.status = .proposed)
      (hrevision : action.revision = some head.revision) : Decides head action context .rejected
  | approve (hkind : action.kind = .approve) (hproposed : head.status = .proposed)
      (hrevision : action.revision = some head.revision) (hcofounder : context.cofounderEnabled = true) :
      Decides head action context .approved

theorem Decides.applyKind {status : PlanStatus} (h : Decides head action context status)
    (hadmin : actor.role = .admin) :
    ∃ decision, applyKind head action actor context =
      pushRecord { head with status } actor context .plan none decision action.note := by
  cases h with
  | cancel hkind =>
    refine ⟨.cancelled, ?_⟩
    simp only [Plans.applyKind, hkind, Plans.cancel, hadmin]
    simp
  | reject hkind hproposed hrevision =>
    refine ⟨.rejected, ?_⟩
    simp only [Plans.applyKind, hkind, Plans.reject, requireAdmin, hadmin, hproposed, checkRevision,
      hrevision]
    rfl
  | approve hkind hproposed hrevision hcofounder =>
    refine ⟨.approved, ?_⟩
    simp only [Plans.applyKind, hkind, Plans.approve, requireAdmin, hadmin, hproposed, checkRevision,
      hrevision, requireCofounder, hcofounder]
    rfl

/-- An admin's decision on an open plan is taken if and only if the approval record is not full. -/
theorem admin_decides_iff (head : PlanHead) (action : PlanAction) (actor : PlanActor)
    (context : PlanContext) (status : PlanStatus) (hvalid : validatePlanAction action = .ok ())
    (hid : head.planId = action.planId) (hopen : head.status.isOpen = true)
    (hadmin : actor.role = .admin) (hdecides : Decides head action context status) :
    (∃ next, applyPlanAction action actor context (some head) = .ok next ∧
      (status ≠ .approved → next.status = status)) ↔ head.approvals.length < maxPlanApprovals := by
  have hkind : action.kind ≠ .propose := by
    cases hdecides <;> simp [*]
  obtain ⟨decision, hdecision⟩ := hdecides.applyKind hadmin
  rw [applyPlanAction_open hvalid hkind hid hopen, hdecision]
  constructor
  · rintro ⟨next, hnext, -⟩
    by_contra hfull
    rw [pushRecord_full { head with status } (Nat.not_lt.1 hfull)] at hnext
    cases hnext
  · intro hroom
    rw [pushRecord_room { head with status } hroom]
    exact ⟨_, rfl, fun hne => if_neg fun h => hne h.1⟩

end Decisions

def samplePropose : Call :=
  ⟨{ sampleAction .propose with plan := some samplePlan, expectedHeadEventId := none },
    ⟨"member", .member, []⟩, ⟨1, true, "event"⟩⟩

def sampleAdmin : PlanActor := ⟨"admin", .admin, []⟩

def sampleEdit : Call :=
  ⟨{ sampleAction .revise with plan := some samplePlan }, sampleAdmin, ⟨2, true, "event"⟩⟩

def Edited (n : Nat) (head : PlanHead) : Prop :=
  head.status = .proposed ∧ head.planId = sampleEdit.action.planId ∧
    head.proposedByPubkey = "member" ∧ head.approvals.length = n

theorem Edited.next {n : Nat} {head : PlanHead} (h : Edited n head) (hn : n < maxPlanApprovals) :
    ∃ next, applyPlanAction sampleEdit.action sampleEdit.actor sampleEdit.context (some head) = .ok next ∧
      Edited (n + 1) next := by
  obtain ⟨hstatus, hid, hproposer, rfl⟩ := h
  have hvalid : validatePlanAction sampleEdit.action = .ok () := by decide +kernel
  have hrevise : applyKind head sampleEdit.action sampleEdit.actor sampleEdit.context =
      pushRecord { head with plan := samplePlan, revision := min (2 ^ 32 - 1) (head.revision + 1) }
        sampleEdit.actor sampleEdit.context .plan none .edited none := by
    simp only [applyKind, sampleEdit, sampleAction, revise, hstatus, requireCofounder, isProposer,
      hproposer]
    rfl
  rw [applyPlanAction_open hvalid (by decide) hid (by rw [hstatus]; rfl), hrevise,
    pushRecord_room { head with
      plan := samplePlan, revision := min (2 ^ 32 - 1) (head.revision + 1) } hn]
  refine ⟨_, rfl, ?_⟩
  simp [Edited, finish, hstatus, hid, hproposer]

theorem edited_run {n : Nat} (hn : n ≤ maxPlanApprovals) :
    ∃ head, (run (samplePropose :: List.replicate n sampleEdit)).head = some head ∧ Edited n head := by
  induction n with
  | zero =>
    have hpropose : (run [samplePropose]).head.map (fun head => (head.status, head.planId,
        head.proposedByPubkey, head.approvals.length)) =
          some (.proposed, sampleEdit.action.planId, "member", 0) := by
      decide +kernel
    obtain ⟨head, hhead, heq⟩ := Option.map_eq_some_iff.1 hpropose
    simp only [Prod.mk.injEq] at heq
    exact ⟨head, hhead, heq⟩
  | succ n ih =>
    obtain ⟨head, hhead, hedited⟩ := ih (Nat.le_of_succ_le hn)
    obtain ⟨next, hnext, hedited'⟩ := hedited.next hn
    refine ⟨next, ?_, hedited'⟩
    rw [run, List.replicate_succ', ← List.cons_append, runFrom_append, ← run]
    simp only [runFrom, List.foldl, Plan.call, hhead, hnext]

theorem admin_decides_iff_edited :
    ∃ head, (run (samplePropose :: List.replicate 3 sampleEdit)).head = some head ∧
      head.approvals.length = 3 ∧
      ∃ next, applyPlanAction (sampleAction .cancel) sampleAdmin ⟨3, false, "event"⟩ (some head) = .ok next ∧
        (PlanStatus.cancelled ≠ .approved → next.status = .cancelled) := by
  obtain ⟨head, hhead, hstatus, hid, -, hlength⟩ := edited_run (show 3 ≤ maxPlanApprovals by decide)
  refine ⟨head, hhead, hlength, ?_⟩
  exact (admin_decides_iff head (sampleAction .cancel) sampleAdmin ⟨3, false, "event"⟩ .cancelled
    (by decide +kernel) hid (by rw [hstatus]; rfl) rfl (.cancel rfl)).2 (hlength ▸ by decide)

theorem cancel_refused :
    ∃ head, (run (samplePropose :: List.replicate 200 sampleEdit)).head = some head ∧
      head.status = .proposed ∧
      validatePlanAction (sampleAction .cancel) = .ok () ∧
      applyPlanAction (sampleAction .cancel) sampleAdmin ⟨3, true, "event"⟩ (some head) =
        conflict "this plan's approval record is full" := by
  obtain ⟨head, hhead, hstatus, hid, -, hlength⟩ := edited_run (le_refl maxPlanApprovals)
  have hvalid : validatePlanAction (sampleAction .cancel) = .ok () := by decide +kernel
  refine ⟨head, hhead, hstatus, hvalid, ?_⟩
  have hcancel : Decides head (sampleAction .cancel) ⟨3, true, "event"⟩ .cancelled := .cancel rfl
  obtain ⟨decision, hdecision⟩ := hcancel.applyKind (show sampleAdmin.role = .admin from rfl)
  rw [applyPlanAction_open hvalid (by decide) hid (by rw [hstatus]; rfl), hdecision,
    pushRecord_full { head with status := .cancelled } hlength.ge]
  rfl

end Colony.Plans
