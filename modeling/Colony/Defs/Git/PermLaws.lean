import Colony.Defs.Git.Perms

namespace Colony.Git

theorem stricter_comm : ∀ (e : Option MemberRole) (r r' : MemberRole),
    stricter (stricter e r) r' = stricter (stricter e r') r := by
  rintro (_ | e) r r' <;> cases r <;> cases r' <;> first | rfl | (cases e <;> rfl)

theorem EffectiveRules.add_comm (refName : String) (e : EffectiveRules)
    (rule rule' : ProtectionRule) :
    (e.add refName rule).add refName rule' = (e.add refName rule').add refName rule := by
  simp only [add]
  split_ifs
  · rfl
  · rfl
  · rfl
  · refine EffectiveRules.mk.injEq .. ▸ ⟨?_, ?_, ?_, ?_, rfl⟩
    · cases rule.pushRole <;> cases rule'.pushRole <;> simp only [stricter_comm]
    · exact Bool.or_right_comm _ _ _
    · exact Bool.or_right_comm _ _ _
    · exact Bool.or_right_comm _ _ _

theorem EffectiveRules.forRef_perm {rules rules' : List ProtectionRule} (h : rules.Perm rules')
    (refName : String) : forRef refName rules = forRef refName rules' :=
  h.foldl_eq' (fun rule _ rule' _ e => add_comm refName e rule rule') none

structure ProtectionRule.Permits (rule : ProtectionRule) (kind : UpdateKind) (role : MemberRole) :
    Prop where
  patch : rule.requirePatch = false
  push : ∀ r ∈ rule.pushRole, r.permissionLevel ≤ role.permissionLevel
  force : rule.noForcePush = true → kind ≠ .nonFastForward
  delete : rule.noDelete = true → kind ≠ .delete

structure EffectiveRules.Permits (e : EffectiveRules) (kind : UpdateKind) (role : MemberRole) :
    Prop where
  patch : e.requirePatch = false
  push : ∀ r ∈ e.pushRole, r.permissionLevel ≤ role.permissionLevel
  force : e.noForcePush = true → kind ≠ .nonFastForward
  delete : e.noDelete = true → kind ≠ .delete

theorem stricter_le {e : Option MemberRole} {role : MemberRole} {level : Nat} :
    (∀ r ∈ stricter e role, r.permissionLevel ≤ level) ↔
      (∀ r ∈ e, r.permissionLevel ≤ level) ∧ role.permissionLevel ≤ level := by
  cases e with
  | none => simp [stricter]
  | some existing =>
    simp only [stricter, Option.mem_def, Option.some.injEq, forall_eq']
    split_ifs with h <;> omega

namespace EffectiveRules

variable {refName : String} {kind : UpdateKind} {role : MemberRole}

theorem permits_none : none.Permits kind role := ⟨rfl, nofun, nofun, nofun⟩

theorem pushRole_add (e : EffectiveRules) (rule : ProtectionRule) (role : MemberRole) :
    (∀ r ∈ (match rule.pushRole with
      | some role => stricter e.pushRole role
      | .none => e.pushRole), r.permissionLevel ≤ role.permissionLevel) ↔
      (∀ r ∈ e.pushRole, r.permissionLevel ≤ role.permissionLevel) ∧
        ∀ r ∈ rule.pushRole, r.permissionLevel ≤ role.permissionLevel := by
  cases rule.pushRole with
  | none => simp
  | some r =>
    rw [stricter_le]
    simp

theorem permits_add {e : EffectiveRules} {rule : ProtectionRule}
    (hmatch : rule.pattern.matchesRef refName = true) :
    (e.add refName rule).Permits kind role ↔ e.Permits kind role ∧ rule.Permits kind role := by
  have hpush := pushRole_add e rule role
  rw [add, hmatch, Bool.not_true, if_neg Bool.false_ne_true]
  constructor
  · rintro ⟨hpatch, hrole, hforce, hdelete⟩
    replace hrole := hpush.1 hrole
    simp only [Bool.or_eq_false_iff, Bool.or_eq_true] at hpatch hforce hdelete
    exact ⟨⟨hpatch.1, hrole.1, fun h => hforce (.inl h), fun h => hdelete (.inl h)⟩,
      ⟨hpatch.2, hrole.2, fun h => hforce (.inr h), fun h => hdelete (.inr h)⟩⟩
  · rintro ⟨he, hrule⟩
    refine ⟨?_, hpush.2 ⟨he.push, hrule.push⟩, ?_, ?_⟩
    · simp [he.patch, hrule.patch]
    · exact fun h => (Bool.or_eq_true _ _ ▸ h).elim he.force hrule.force
    · exact fun h => (Bool.or_eq_true _ _ ▸ h).elim he.delete hrule.delete

theorem permits_foldl {rules : List ProtectionRule} {e : EffectiveRules} :
    (rules.foldl (add refName) e).Permits kind role ↔ e.Permits kind role ∧
      ∀ rule ∈ rules, rule.pattern.matchesRef refName = true → rule.Permits kind role := by
  induction rules generalizing e with
  | nil => simp
  | cons rule rules ih =>
    rw [List.foldl_cons, ih, List.forall_mem_cons]
    by_cases hmatch : rule.pattern.matchesRef refName = true
    · rw [permits_add hmatch, and_assoc]
      simp only [hmatch, forall_const]
    · have hsame : e.add refName rule = e := by simp [add, hmatch]
      simp [hsame, hmatch]

theorem permits_forRef {rules : List ProtectionRule} :
    (forRef refName rules).Permits kind role ↔
      ∀ rule ∈ rules, rule.pattern.matchesRef refName = true → rule.Permits kind role :=
  permits_foldl.trans (and_iff_right permits_none)

theorem forRef_eq_none {rules : List ProtectionRule}
    (h : (forRef refName rules).hasExplicitMatch = false) : forRef refName rules = none := by
  have hkeeps (rules : List ProtectionRule) (e : EffectiveRules) :
      rules.foldl (add refName) e = e ∨ (rules.foldl (add refName) e).hasExplicitMatch = true := by
    induction rules generalizing e with
    | nil => exact .inl rfl
    | cons rule rules ih =>
      rw [List.foldl_cons]
      by_cases hmatch : rule.pattern.matchesRef refName = true
      · have hset : (e.add refName rule).hasExplicitMatch = true := by simp [add, hmatch]
        refine .inr ((ih (e.add refName rule)).elim (fun hsame => ?_) id)
        rw [hsame]
        exact hset
      · have hsame : e.add refName rule = e := by simp [add, hmatch]
        rw [hsame]
        exact ih e
  exact (hkeeps rules none).resolve_right fun htrue => by rw [forRef, htrue] at h; cases h

end EffectiveRules

theorem hasAtLeast_minRole {explicit : Option MemberRole} {default_ role : MemberRole} :
    role.hasAtLeast (minRole explicit default_) = true ↔ role.hasAtLeast default_ = true ∧
      ∀ r ∈ explicit, r.permissionLevel ≤ role.permissionLevel := by
  cases explicit with
  | none => simp [minRole]
  | some r =>
    simp only [minRole, MemberRole.hasAtLeast, decide_eq_true_eq, Option.mem_def,
      Option.some.injEq, forall_eq']
    split_ifs with h
    · rw [decide_eq_true_eq]
      exact ⟨fun hr => ⟨h.trans hr, hr⟩, And.right⟩
    · rw [decide_eq_true_eq]
      exact ⟨fun hd => ⟨hd, (Nat.lt_of_not_le h).le.trans hd⟩, And.left⟩

theorem evaluateRefUpdate_eq_none {update : RefUpdate} {role : MemberRole}
    {rules : List ProtectionRule} : evaluateRefUpdate update role rules = none ↔
      role.hasAtLeast (defaultMinRole update.refName update.kind) = true ∧
        ∀ rule ∈ rules, rule.pattern.matchesRef update.refName = true →
          rule.Permits update.kind role := by
  rw [← EffectiveRules.permits_forRef]
  unfold evaluateRefUpdate
  cases hmatch : (EffectiveRules.forRef update.refName rules).hasExplicitMatch with
  | false =>
    rw [EffectiveRules.forRef_eq_none hmatch]
    simp [EffectiveRules.permits_none, show EffectiveRules.none.hasExplicitMatch = false from rfl]
  | true =>
    simp only [hmatch, Bool.not_true, Bool.false_eq_true, if_false, Bool.not_eq_true']
    constructor
    · intro h
      split_ifs at h with hpatch hrole hforce hdelete
      obtain ⟨hdefault, hpush⟩ := hasAtLeast_minRole.1 (Bool.not_eq_false _ ▸ hrole)
      exact ⟨hdefault, Bool.not_eq_true _ ▸ hpatch, hpush, fun hf hk => hforce ⟨hf, hk⟩,
        fun hd hk => hdelete ⟨hd, hk⟩⟩
    · rintro ⟨hdefault, hpatch, hpush, hforce, hdelete⟩
      have hrole := hasAtLeast_minRole.2 ⟨hdefault, hpush⟩
      rw [if_neg (by simp [hpatch]), if_neg (by simp [hrole]), if_neg fun h => hforce h.1 h.2,
        if_neg fun h => hdelete h.1 h.2]

theorem evaluatePush_eq_ok {updates : List RefUpdate} {role : MemberRole}
    {rules : List ProtectionRule} : evaluatePush updates role rules = .ok () ↔
      ∀ update ∈ updates, evaluateRefUpdate update role rules = none := by
  rw [evaluatePush, ← List.filterMap_eq_nil_iff]
  split_ifs with h <;> simp [h]

theorem ProtectionRule.Permits.mono {rule : ProtectionRule} {kind : UpdateKind}
    {role role' : MemberRole} (h : rule.Permits kind role)
    (hlevel : role.permissionLevel ≤ role'.permissionLevel) : rule.Permits kind role' :=
  { h with push := fun r hr => (h.push r hr).trans hlevel }

theorem evaluatePush_laws (updates : List RefUpdate) (role : MemberRole)
    (rules : List ProtectionRule) :
    (∀ rules', rules.Perm rules' →
      evaluatePush updates role rules' = evaluatePush updates role rules) ∧
    (∀ rules', rules ⊆ rules' → evaluatePush updates role rules ≠ .ok () →
      evaluatePush updates role rules' ≠ .ok ()) ∧
    (∀ role' : MemberRole, role.permissionLevel ≤ role'.permissionLevel →
      evaluatePush updates role rules = .ok () → evaluatePush updates role' rules = .ok ()) ∧
    (evaluatePush updates role rules = .ok () → ∀ update ∈ updates,
      role.hasAtLeast (defaultMinRole update.refName update.kind) = true) := by
  refine ⟨fun rules' hperm => ?_, fun rules' hsub => mt fun hok => ?_, fun role' hlevel hok => ?_,
    fun hok update hmem => ?_⟩
  · have hsame (update : RefUpdate) :
        evaluateRefUpdate update role rules' = evaluateRefUpdate update role rules := by
      rw [evaluateRefUpdate, evaluateRefUpdate, EffectiveRules.forRef_perm hperm]
    simp only [evaluatePush, hsame]
  · refine evaluatePush_eq_ok.2 fun update hmem => ?_
    obtain ⟨hdefault, hrules⟩ := evaluateRefUpdate_eq_none.1 (evaluatePush_eq_ok.1 hok update hmem)
    exact evaluateRefUpdate_eq_none.2 ⟨hdefault, fun rule hrule => hrules rule (hsub hrule)⟩
  · refine evaluatePush_eq_ok.2 fun update hmem => ?_
    obtain ⟨hdefault, hrules⟩ := evaluateRefUpdate_eq_none.1 (evaluatePush_eq_ok.1 hok update hmem)
    refine evaluateRefUpdate_eq_none.2 ⟨?_, fun rule hrule hmatch =>
      (hrules rule hrule hmatch).mono hlevel⟩
    simp only [MemberRole.hasAtLeast, decide_eq_true_eq] at hdefault ⊢
    exact hdefault.trans hlevel
  · exact (evaluateRefUpdate_eq_none.1 (evaluatePush_eq_ok.1 hok update hmem)).1

end Colony.Git
