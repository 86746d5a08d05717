import Colony.Defs.Data.Keyed
import Colony.Defs.Data.Run
import Colony.Defs.Money.Notice

namespace Colony.Money

open Colony.Core Colony.Data

def MAX_RECIPES : Nat := 16

inductive ApprovalStatus
  | proposed
  | approved
  | revoked
  | refused
  deriving DecidableEq

structure StoredRecipe where
  recipe : Recipe
  status : ApprovalStatus
  recipeHash : String
  proposedBy : String
  approvedBy : Option String
  approvedAt : Option Int
  refusal : Option String
  deriving DecidableEq

def StoredRecipe.id (stored : StoredRecipe) : String := stored.recipe.recipeId

structure StoredNoticeMap where
  map : NoticeMap
  status : ApprovalStatus
  mapHash : String
  proposedBy : String
  approvedBy : Option String
  deriving DecidableEq

structure ConnectionConfig where
  label : String
  route : Route
  status : ConnectionStatus
  isDefault : Bool
  apiHosts : List String
  recipes : List StoredRecipe
  noticeMap : Option StoredNoticeMap
  signature : Option SignatureConfig
  hasApiKey : Bool
  hasSigningSecret : Bool
  version : Nat
  deriving DecidableEq

inductive ConnectionOp
  | addBrowser
  | proposeRecipe
  | approveRecipe
  | revokeRecipe
  | proposeNoticeMap
  | approveNoticeMap
  | setDefault
  | rename
  | disconnect
  deriving DecidableEq

structure ConnectionAction where
  op : ConnectionOp
  label : Option String := none
  recipe : Option Recipe := none
  recipeId : Option String := none
  recipeHash : Option String := none
  noticeMap : Option NoticeMap := none
  mapHash : Option String := none

inductive ConnectionEffect
  | none
  | makeDefaultExclusive
  | deleteSecrets
  deriving DecidableEq

def authorizeConnectionOp (op : ConnectionOp) (role : ActorRole) : Except MoneyError Unit :=
  ensure ((match op with
    | .proposeRecipe | .proposeNoticeMap => role.mayPrepare
    | _ => role.isOwnerAdmin) = true) (MoneyError.forbidden "money_forbidden"
    "only the owner or an admin can do this; Scout can only propose recipes")

def staticCode (code : String) : String :=
  if code ∈ FORBIDDEN_WORDS.map Prod.snd ∨
      code ∈ ["balance_path", "method_not_allowed", "host_not_allowed"] then code
  else "recipe_refused"

namespace ConnectionConfig

def approvedNoticeMap (config : ConnectionConfig) : Option NoticeMap :=
  (config.noticeMap.filter fun stored => stored.status == .approved).map StoredNoticeMap.map

def findRecipe (config : ConnectionConfig) (recipeId : String) : Option StoredRecipe :=
  config.recipes.find? fun stored => stored.id == recipeId

def updateRecipe (config : ConnectionConfig) (recipeId : String) (f : StoredRecipe → StoredRecipe) :
    ConnectionConfig :=
  { config with recipes := updateFirst (fun stored => stored.id == recipeId) f config.recipes }

def putRecipe (config : ConnectionConfig) (stored : StoredRecipe) : ConnectionConfig :=
  match config.findRecipe stored.id with
  | some _ => config.updateRecipe stored.id fun _ => stored
  | none => { config with recipes := config.recipes ++ [stored] }

end ConnectionConfig

def proposalStatus (recipe : Recipe) (apiHosts : List String) :
    Except MoneyError (ApprovalStatus × Option String) :=
  match validateRecipe recipe apiHosts with
  | .ok () => .ok (.proposed, none)
  | .error error =>
    if error.kind = .forbidden then .ok (.refused, some error.code) else .error error

section Actions

variable (lib : Libs) (config : ConnectionConfig) (action : ConnectionAction) (actorPubkey : String)

def proposeRecipe : Except MoneyError ConnectionConfig := do
  let recipe ← orRefuse action.recipe
    (MoneyError.invalid "money_invalid_input" "recipe is required")
  ensure (config.route = .api)
    (MoneyError.conflict "route_mismatch" "recipes belong to an API connection")
  ensure (config.recipes.length < MAX_RECIPES ∨
      config.recipes.any (fun stored => stored.id == recipe.recipeId) = true)
    (MoneyError.invalid "recipe_size" "this connection already has the most recipes it can keep")
  let (status, refusal) ← proposalStatus recipe config.apiHosts
  return config.putRecipe
    { recipe
      status
      recipeHash := recipeHash lib recipe
      proposedBy := actorPubkey
      approvedBy := none
      approvedAt := none
      refusal }

def approveRecipe (now : Int) : Except MoneyError ConnectionConfig := do
  let recipeId := action.recipeId.getD ""
  let seenHash := action.recipeHash.getD ""
  let stored ← orRefuse (config.findRecipe recipeId)
    (MoneyError.conflict "recipe_missing" "no such recipe")
  ensure (stored.status ≠ .refused)
    (MoneyError.forbidden ((stored.refusal.map staticCode).getD "recipe_refused")
      "this recipe was refused and cannot be approved")
  ensure (recipeHash lib stored.recipe = stored.recipeHash ∧ stored.recipeHash = seenHash)
    (MoneyError.conflict "recipe_changed"
      "the recipe changed after you looked at it; review it again")
  validateRecipe stored.recipe config.apiHosts
  return config.updateRecipe recipeId fun stored => { stored with
    status := .approved
    approvedBy := some actorPubkey
    approvedAt := some now }

def revokeRecipe : Except MoneyError ConnectionConfig := do
  let recipeId := action.recipeId.getD ""
  let _ ← orRefuse (config.findRecipe recipeId)
    (MoneyError.conflict "recipe_missing" "no such recipe")
  return config.updateRecipe recipeId fun stored => { stored with status := .revoked }

def proposeNoticeMap : Except MoneyError ConnectionConfig := do
  let map ← orRefuse action.noticeMap
    (MoneyError.invalid "money_invalid_input" "noticeMap is required")
  validateNoticeMap map
  return { config with
    noticeMap := some {
      map
      status := .proposed
      mapHash := noticeMapHash lib map
      proposedBy := actorPubkey
      approvedBy := none } }

def approveNoticeMap : Except MoneyError ConnectionConfig := do
  let seenHash := action.mapHash.getD ""
  let stored ← orRefuse config.noticeMap
    (MoneyError.conflict "notice_map_missing" "no notice map")
  ensure (noticeMapHash lib stored.map = stored.mapHash ∧ stored.mapHash = seenHash)
    (MoneyError.conflict "notice_map_changed"
      "the notice map changed after you looked at it; review it again")
  validateNoticeMap stored.map
  return { config with
    noticeMap := some { stored with status := .approved, approvedBy := some actorPubkey } }

def disconnect : ConnectionConfig :=
  { config with
    status := .disconnected
    isDefault := false
    hasApiKey := false
    hasSigningSecret := false
    recipes := config.recipes.map fun stored =>
      if stored.status = .approved then { stored with status := .revoked } else stored }

def actionChange (now : Int) : Except MoneyError (ConnectionConfig × ConnectionEffect) :=
  match action.op with
  | .addBrowser =>
    .error (MoneyError.conflict "connection_exists" "this connection already exists")
  | .proposeRecipe => (proposeRecipe lib config action actorPubkey).map (·, .none)
  | .approveRecipe => (approveRecipe lib config action actorPubkey now).map (·, .none)
  | .revokeRecipe => (revokeRecipe config action).map (·, .none)
  | .proposeNoticeMap => (proposeNoticeMap lib config action actorPubkey).map (·, .none)
  | .approveNoticeMap => (approveNoticeMap lib config action actorPubkey).map (·, .none)
  | .setDefault => .ok ({ config with isDefault := true }, .makeDefaultExclusive)
  | .rename => do
    let label ← orRefuse action.label
      (MoneyError.invalid "money_invalid_input" "label is required")
    return ({ config with label }, .none)
  | .disconnect => .ok (disconnect config, .deleteSecrets)

def applyConnectionAction (role : ActorRole) (now : Int) :
    Except MoneyError (ConnectionConfig × ConnectionEffect) := do
  authorizeConnectionOp action.op role
  ensure (config.status ≠ .disconnected)
    (MoneyError.conflict "connection_disconnected" "this connection is disconnected")
  let (config, effect) ← actionChange lib config action actorPubkey now
  return ({ config with version := min (config.version + 1) (2 ^ 32 - 1) }, effect)

end Actions

structure ConnectionCall where
  action : ConnectionAction
  actorPubkey : String
  role : ActorRole
  now : Int

namespace ConnectionConfig

def apply (lib : Libs) (config : ConnectionConfig) (call : ConnectionCall) :
    Except MoneyError (ConnectionConfig × ConnectionEffect) :=
  applyConnectionAction lib config call.action call.actorPubkey call.role call.now

def step (lib : Libs) (config : ConnectionConfig) (call : ConnectionCall) : ConnectionConfig :=
  match config.apply lib call with
  | .ok (config', _) => config'
  | .error _ => config

variable {lib : Libs} {config : ConnectionConfig} {call : ConnectionCall}

inductive Changed (lib : Libs) (config : ConnectionConfig) (call : ConnectionCall) :
    ConnectionConfig → Prop
  | recipeProposed {stored : StoredRecipe} (op : call.action.op = .proposeRecipe)
      (body : call.action.recipe = some stored.recipe) (unapproved : stored.status ≠ .approved) :
    Changed lib config call (config.putRecipe stored)
  | recipeApproved {stored : StoredRecipe} (op : call.action.op = .approveRecipe)
      (owner : call.role = .ownerAdmin)
      (found : config.findRecipe (call.action.recipeId.getD "") = some stored)
      (seen : call.action.recipeHash.getD "" = recipeHash lib stored.recipe)
      (valid : validateRecipe stored.recipe config.apiHosts = .ok ()) :
    Changed lib config call (config.updateRecipe (call.action.recipeId.getD "") fun stored =>
      { stored with
        status := .approved
        approvedBy := some call.actorPubkey
        approvedAt := some call.now })
  | recipeRevoked {stored : StoredRecipe} (op : call.action.op = .revokeRecipe)
      (found : config.findRecipe (call.action.recipeId.getD "") = some stored) :
    Changed lib config call (config.updateRecipe (call.action.recipeId.getD "") fun stored =>
      { stored with status := .revoked })
  | mapProposed {stored : StoredNoticeMap} (op : call.action.op = .proposeNoticeMap)
      (body : call.action.noticeMap = some stored.map) (unapproved : stored.status ≠ .approved) :
    Changed lib config call { config with noticeMap := some stored }
  | mapApproved {stored : StoredNoticeMap} (op : call.action.op = .approveNoticeMap)
      (owner : call.role = .ownerAdmin) (found : config.noticeMap = some stored)
      (seen : call.action.mapHash.getD "" = noticeMapHash lib stored.map)
      (valid : validateNoticeMap stored.map = .ok ()) :
    Changed lib config call { config with
      noticeMap := some { stored with status := .approved, approvedBy := some call.actorPubkey } }
  | relabelled (op : call.action.op = .setDefault ∨ call.action.op = .rename) (label : String)
      (isDefault : Bool) :
    Changed lib config call { config with label, isDefault }
  | disconnected (op : call.action.op = .disconnect) : Changed lib config call (disconnect config)

theorem proposalStatus_ne_approved {recipe : Recipe} {apiHosts : List String}
    {status : ApprovalStatus} {refusal : Option String}
    (h : proposalStatus recipe apiHosts = .ok (status, refusal)) : status ≠ .approved := by
  rintro rfl
  unfold proposalStatus at h
  split at h
  · cases h
  · split at h <;> cases h

theorem actionChange_changed {config' : ConnectionConfig} {effect : ConnectionEffect}
    (hallowed : authorizeConnectionOp call.action.op call.role = .ok ())
    (h : actionChange lib config call.action call.actorPubkey call.now = .ok (config', effect)) :
    Changed lib config call config' := by
  unfold actionChange at h
  simp only [authorizeConnectionOp, ensure_eq_ok] at hallowed
  cases hop : call.action.op <;> simp only [hop] at h hallowed
  case addBrowser => cases h
  case proposeRecipe =>
    simp only [map_eq_ok, proposeRecipe, bind_eq_ok, orRefuse_eq_ok, ensure_eq_ok] at h
    obtain ⟨_, ⟨recipe, hrecipe, -, -, -, -, ⟨status, refusal⟩, hstatus, ⟨⟩⟩, ⟨⟩⟩ := h
    exact .recipeProposed hop hrecipe (proposalStatus_ne_approved hstatus)
  case approveRecipe =>
    simp only [map_eq_ok, approveRecipe, bind_eq_ok, orRefuse_eq_ok, ensure_eq_ok] at h
    obtain ⟨_, ⟨stored, hfound, -, -, -, ⟨hhash, hseen⟩, ⟨⟩, hvalid, ⟨⟩⟩, ⟨⟩⟩ := h
    exact .recipeApproved hop (beq_iff_eq.1 hallowed) hfound (hseen.symm.trans hhash.symm) hvalid
  case revokeRecipe =>
    simp only [map_eq_ok, revokeRecipe, bind_eq_ok, orRefuse_eq_ok] at h
    obtain ⟨_, ⟨stored, hfound, ⟨⟩⟩, ⟨⟩⟩ := h
    exact .recipeRevoked hop hfound
  case proposeNoticeMap =>
    simp only [map_eq_ok, proposeNoticeMap, bind_eq_ok, orRefuse_eq_ok] at h
    obtain ⟨_, ⟨map, hmap, -, -, ⟨⟩⟩, ⟨⟩⟩ := h
    exact .mapProposed hop hmap (by simp)
  case approveNoticeMap =>
    simp only [map_eq_ok, approveNoticeMap, bind_eq_ok, orRefuse_eq_ok, ensure_eq_ok] at h
    obtain ⟨_, ⟨stored, hfound, -, ⟨hhash, hseen⟩, ⟨⟩, hvalid, ⟨⟩⟩, ⟨⟩⟩ := h
    exact .mapApproved hop (beq_iff_eq.1 hallowed) hfound (hseen.symm.trans hhash.symm) hvalid
  case setDefault =>
    cases h
    exact .relabelled (.inl hop) config.label true
  case rename =>
    simp only [bind_eq_ok, orRefuse_eq_ok] at h
    obtain ⟨label, -, ⟨⟩⟩ := h
    exact .relabelled (.inr hop) label config.isDefault
  case disconnect =>
    cases h
    exact .disconnected hop

theorem apply_changed {config' : ConnectionConfig} {effect : ConnectionEffect}
    (h : config.apply lib call = .ok (config', effect)) :
    config.status ≠ .disconnected ∧ ∃ changed version, Changed lib config call changed ∧
      config' = { changed with version } := by
  simp only [apply, applyConnectionAction, bind_eq_ok, ensure_eq_ok] at h
  obtain ⟨⟨⟩, hallowed, -, hlive, ⟨changed, effect'⟩, hchange, hconfig⟩ := h
  cases hconfig
  exact ⟨hlive, changed, _, actionChange_changed hallowed hchange, rfl⟩

theorem step_cases (lib : Libs) (config : ConnectionConfig) (call : ConnectionCall) :
    config.step lib call = config ∨ config.status ≠ .disconnected ∧ ∃ changed version,
      Changed lib config call changed ∧ config.step lib call = { changed with version } := by
  unfold step
  split
  · next config' effect h => exact .inr (apply_changed h)
  · exact .inl rfl

section Recipes

variable {stored x : StoredRecipe} {recipeId : String} {f : StoredRecipe → StoredRecipe}

def Keyed (config : ConnectionConfig) : Prop := (config.recipes.map StoredRecipe.id).Nodup

theorem Keyed.eq (hkeyed : config.Keyed) {x y : StoredRecipe} (hx : x ∈ config.recipes)
    (hy : y ∈ config.recipes) (hid : x.id = y.id) : x = y :=
  List.inj_on_of_nodup_map hkeyed hx hy hid

theorem id_of_findRecipe (hfound : config.findRecipe recipeId = some stored) :
    stored.id = recipeId := by
  simpa using List.find?_some hfound

theorem mem_of_findRecipe (hfound : config.findRecipe recipeId = some stored) :
    stored ∈ config.recipes := List.mem_of_find?_eq_some hfound

theorem Keyed.updateRecipe (hkeyed : config.Keyed)
    (hfound : config.findRecipe recipeId = some stored) (hf : (f stored).id = stored.id) :
    (config.updateRecipe recipeId f).Keyed := by
  have hsame : ∀ a ∈ config.recipes.find? fun x => x.id == recipeId, (f a).id = a.id := by
    intro a ha
    cases hfound.symm.trans ha
    exact hf
  rw [Keyed, ConnectionConfig.updateRecipe, map_updateFirst hsame]
  exact hkeyed

theorem Keyed.mem_updateRecipe (hkeyed : config.Keyed)
    (hfound : config.findRecipe recipeId = some stored) :
    x ∈ (config.updateRecipe recipeId f).recipes ↔
      x = f stored ∨ (x ∈ config.recipes ∧ x.id ≠ recipeId) :=
  mem_updateFirst hkeyed hfound

theorem Keyed.putRecipe (hkeyed : config.Keyed) : (config.putRecipe stored).Keyed := by
  unfold ConnectionConfig.putRecipe
  split
  · next old hold => exact hkeyed.updateRecipe hold (id_of_findRecipe hold).symm
  · next hnone =>
    have hnew : stored.id ∉ config.recipes.map StoredRecipe.id := by
      rintro hmem
      obtain ⟨y, hy, hid⟩ := List.mem_map.1 hmem
      simpa [hid] using List.find?_eq_none.1 hnone y hy
    rw [Keyed, List.map_append, List.nodup_append_comm]
    exact List.nodup_cons.2 ⟨hnew, hkeyed⟩

theorem Keyed.mem_putRecipe (hkeyed : config.Keyed) :
    x ∈ (config.putRecipe stored).recipes ↔
      x = stored ∨ (x ∈ config.recipes ∧ x.id ≠ stored.id) := by
  unfold ConnectionConfig.putRecipe
  split
  · next old hold => exact hkeyed.mem_updateRecipe hold
  · next hnone =>
    have hother (hx : x ∈ config.recipes) : x.id ≠ stored.id := by
      simpa using List.find?_eq_none.1 hnone x hx
    rw [List.mem_append, List.mem_singleton, or_comm]
    exact or_congr_right ⟨fun hx => ⟨hx, hother hx⟩, And.left⟩

end Recipes

@[simp] theorem updateRecipe_apiHosts {recipeId : String} {f : StoredRecipe → StoredRecipe} :
    (config.updateRecipe recipeId f).apiHosts = config.apiHosts := rfl

@[simp] theorem putRecipe_apiHosts {stored : StoredRecipe} :
    (config.putRecipe stored).apiHosts = config.apiHosts := by
  unfold putRecipe
  split <;> rfl

@[simp] theorem putRecipe_noticeMap {stored : StoredRecipe} :
    (config.putRecipe stored).noticeMap = config.noticeMap := by
  unfold putRecipe
  split <;> rfl

@[simp] theorem putRecipe_status {stored : StoredRecipe} :
    (config.putRecipe stored).status = config.status := by
  unfold putRecipe
  split <;> rfl

theorem Changed.apiHosts {changed : ConnectionConfig} (h : Changed lib config call changed) :
    changed.apiHosts = config.apiHosts := by
  cases h <;> simp [disconnect]

theorem Changed.status {changed : ConnectionConfig} (h : Changed lib config call changed)
    (hlive : config.status ≠ .disconnected) (hdead : changed.status = .disconnected) :
    changed = disconnect config := by
  cases h with
  | disconnected => rfl
  | recipeProposed => exact absurd (putRecipe_status.symm.trans hdead) hlive
  | _ => exact absurd hdead hlive

/-- The command that approved a recipe: given by the owner or an admin, for this id, with the hash
of this body, which the connection held. -/
structure ApprovesRecipe (lib : Libs) (stored : StoredRecipe) (config : ConnectionConfig)
    (call : ConnectionCall) : Prop where
  op : call.action.op = .approveRecipe
  owner : call.role = .ownerAdmin
  id : call.action.recipeId = some stored.id
  hash : call.action.recipeHash = some (recipeHash lib stored.recipe)
  signed : stored.approvedBy = some call.actorPubkey ∧ stored.approvedAt = some call.now
  held : ∃ shown ∈ config.recipes, shown.recipe = stored.recipe

structure ApprovesNoticeMap (lib : Libs) (stored : StoredNoticeMap) (config : ConnectionConfig)
    (call : ConnectionCall) : Prop where
  op : call.action.op = .approveNoticeMap
  owner : call.role = .ownerAdmin
  hash : call.action.mapHash = some (noticeMapHash lib stored.map)
  signed : stored.approvedBy = some call.actorPubkey
  held : ∃ shown ∈ config.noticeMap, shown.map = stored.map

def approvedBy (call : ConnectionCall) (stored : StoredRecipe) : StoredRecipe :=
  { stored with
    status := .approved
    approvedBy := some call.actorPubkey
    approvedAt := some call.now }

theorem disconnect_unapproved : ∀ x ∈ (disconnect config).recipes, x.status ≠ .approved := by
  intro x hx
  obtain ⟨y, -, rfl⟩ := List.mem_map.1 hx
  split
  · exact nofun
  · assumption

theorem Changed.keyed {changed : ConnectionConfig} (h : Changed lib config call changed)
    (hkeyed : config.Keyed) : changed.Keyed := by
  cases h with
  | recipeProposed => exact hkeyed.putRecipe
  | recipeApproved op owner found => exact hkeyed.updateRecipe found rfl
  | recipeRevoked op found => exact hkeyed.updateRecipe found rfl
  | disconnected =>
    have hids : (disconnect config).recipes.map StoredRecipe.id =
        config.recipes.map StoredRecipe.id := by
      rw [disconnect, List.map_map]
      refine List.map_congr_left fun x _ => ?_
      dsimp only [Function.comp]
      split <;> rfl
    rw [Keyed, hids]
    exact hkeyed
  | _ => exact hkeyed

theorem Changed.approved {changed : ConnectionConfig} (h : Changed lib config call changed)
    (hkeyed : config.Keyed) {x : StoredRecipe} (hx : x ∈ changed.recipes)
    (happroved : x.status = .approved) :
    x ∈ config.recipes ∨ ∃ shown ∈ config.recipes, x = approvedBy call shown ∧
      call.action.op = .approveRecipe ∧ call.role = .ownerAdmin ∧
      call.action.recipeId.getD "" = shown.id ∧
      call.action.recipeHash.getD "" = recipeHash lib shown.recipe ∧
      validateRecipe shown.recipe config.apiHosts = .ok () := by
  cases h with
  | recipeProposed op body unapproved =>
    rcases hkeyed.mem_putRecipe.1 hx with rfl | ⟨hx, -⟩
    · exact absurd happroved unapproved
    · exact .inl hx
  | recipeApproved op owner found seen valid =>
    rcases (hkeyed.mem_updateRecipe found).1 hx with rfl | ⟨hx, -⟩
    · exact .inr ⟨_, mem_of_findRecipe found, rfl, op, owner, (id_of_findRecipe found).symm, seen, valid⟩
    · exact .inl hx
  | recipeRevoked op found =>
    rcases (hkeyed.mem_updateRecipe found).1 hx with rfl | ⟨hx, -⟩
    · cases happroved
    · exact .inl hx
  | disconnected => exact absurd happroved (disconnect_unapproved x hx)
  | _ => exact .inl hx

theorem Changed.approvedMap {changed : ConnectionConfig} (h : Changed lib config call changed)
    {x : StoredNoticeMap} (hx : changed.noticeMap = some x) (happroved : x.status = .approved) :
    config.noticeMap = some x ∨ ∃ shown, config.noticeMap = some shown ∧
      x = { shown with status := .approved, approvedBy := some call.actorPubkey } ∧
      call.action.op = .approveNoticeMap ∧ call.role = .ownerAdmin ∧
      call.action.mapHash.getD "" = noticeMapHash lib shown.map ∧
      validateNoticeMap shown.map = .ok () := by
  cases h with
  | mapProposed op body unapproved =>
    cases hx
    exact absurd happroved unapproved
  | mapApproved op owner found seen valid =>
    cases hx
    exact .inr ⟨_, found, rfl, op, owner, seen, valid⟩
  | recipeProposed => exact .inl (putRecipe_noticeMap.symm.trans hx)
  | _ => exact .inl hx

theorem replaced_unapproved (hkeyed : config.Keyed) {old new : StoredRecipe}
    (hold : old ∈ config.recipes) (hnew : new ∈ (config.step lib call).recipes)
    (hid : new.id = old.id) (hbody : new.recipe ≠ old.recipe) : new.status ≠ .approved := by
  intro happroved
  have hkept (hmem : new ∈ config.recipes) : False :=
    hbody (congrArg StoredRecipe.recipe (hkeyed.eq hmem hold hid))
  rcases config.step_cases lib call with hsame | ⟨-, changed, version, hchanged, hstep⟩
  · exact hkept (hsame ▸ hnew)
  · rw [hstep] at hnew
    rcases hchanged.approved hkeyed hnew happroved with hmem | ⟨shown, hshown, rfl, -⟩
    · exact hkept hmem
    · obtain rfl : shown = old := hkeyed.eq hshown hold hid
      exact hbody rfl

theorem replacedMap_unapproved {old new : StoredNoticeMap} (hold : config.noticeMap = some old)
    (hnew : (config.step lib call).noticeMap = some new) (hbody : new.map ≠ old.map) :
    new.status ≠ .approved := by
  intro happroved
  have hkept (hmem : config.noticeMap = some new) : False := by
    cases hold.symm.trans hmem
    exact hbody rfl
  rcases config.step_cases lib call with hsame | ⟨-, changed, version, hchanged, hstep⟩
  · exact hkept (hsame ▸ hnew)
  · rw [hstep] at hnew
    rcases hchanged.approvedMap hnew happroved with hmem | ⟨shown, hshown, rfl, -⟩
    · exact hkept hmem
    · cases hold.symm.trans hshown
      exact hbody rfl

theorem proposed_unapproved (hkeyed : config.Keyed) {config' : ConnectionConfig}
    {effect : ConnectionEffect} (htaken : config.apply lib call = .ok (config', effect))
    (hop : call.action.op = .proposeRecipe) :
    ∃ recipe ∈ call.action.recipe, ∀ x ∈ config'.recipes, x.id = recipe.recipeId →
      x.recipe = recipe ∧ x.status ≠ .approved := by
  obtain ⟨-, changed, version, hchanged, rfl⟩ := apply_changed htaken
  cases hchanged with
  | @recipeProposed stored op body unapproved =>
    refine ⟨stored.recipe, body, fun x hx hid => ?_⟩
    rcases hkeyed.mem_putRecipe.1 hx with rfl | ⟨-, hne⟩
    · exact ⟨rfl, unapproved⟩
    · exact absurd hid hne
  | relabelled op => rw [hop] at op; simp at op
  | recipeApproved op | recipeRevoked op | mapProposed op | mapApproved op | disconnected op =>
    cases hop.symm.trans op

theorem proposedMap_unapproved {config' : ConnectionConfig} {effect : ConnectionEffect}
    (htaken : config.apply lib call = .ok (config', effect))
    (hop : call.action.op = .proposeNoticeMap) :
    ∃ stored ∈ config'.noticeMap, call.action.noticeMap = some stored.map ∧
      stored.status ≠ .approved := by
  obtain ⟨-, changed, version, hchanged, rfl⟩ := apply_changed htaken
  cases hchanged with
  | @mapProposed stored op body unapproved => exact ⟨stored, rfl, body, unapproved⟩
  | relabelled op => rw [hop] at op; simp at op
  | recipeProposed op | recipeApproved op | recipeRevoked op | mapApproved op | disconnected op =>
    cases hop.symm.trans op

theorem some_of_getD {α : Type} {o : Option α} {a d : α} (h : o.getD d = a) (hne : a ≠ d) :
    o = some a := by
  cases o with
  | none => exact absurd h.symm hne
  | some b => exact congrArg some h

theorem recipeId_ne_empty {recipe : Recipe} {apiHosts : List String}
    (hvalid : validateRecipe recipe apiHosts = .ok ()) : recipe.recipeId ≠ "" := by
  simp only [validateRecipe, bind_eq_ok, ensure_eq_ok] at hvalid
  obtain ⟨-, hslug, -⟩ := hvalid
  intro hempty
  rw [hempty] at hslug
  simp [validSlug] at hslug

structure Fresh (config : ConnectionConfig) : Prop where
  live : config.status = .connected
  recipes : config.recipes = []
  noticeMap : config.noticeMap = none

structure Sound (lib : Libs) (start : ConnectionConfig) (calls : List ConnectionCall)
    (config : ConnectionConfig) : Prop where
  keyed : config.Keyed
  recipe : ∀ stored ∈ config.recipes, stored.status = .approved →
    Made (step lib) (ApprovesRecipe lib stored) start calls ∧
      validateRecipe stored.recipe config.apiHosts = .ok ()
  noticeMap : ∀ stored ∈ config.noticeMap, stored.status = .approved →
    Made (step lib) (ApprovesNoticeMap lib stored) start calls ∧
      validateNoticeMap stored.map = .ok ()
  ended : config.status = .disconnected → (∀ stored ∈ config.recipes, stored.status ≠ .approved) ∧
    config.hasApiKey = false ∧ config.hasSigningSecret = false

theorem Sound.step (hhex : ∀ text, lib.sha256Hex text ≠ "") {start : ConnectionConfig}
    {calls : List ConnectionCall}
    (hsound : Sound lib start calls (runFrom (ConnectionConfig.step lib) start calls))
    (call : ConnectionCall) : Sound lib start (calls ++ [call])
      ((runFrom (ConnectionConfig.step lib) start calls).step lib call) := by
  generalize hconfig : runFrom (ConnectionConfig.step lib) start calls = config at hsound
  rcases config.step_cases lib call with hsame | ⟨hlive, changed, version, hchanged, hstep⟩
  · rw [hsame]
    exact ⟨hsound.keyed, fun x hx ha => (hsound.recipe x hx ha).imp_left (·.concat call),
      fun x hx ha => (hsound.noticeMap x hx ha).imp_left (·.concat call), hsound.ended⟩
  rw [hstep]
  refine ⟨hchanged.keyed hsound.keyed, fun x hx ha => ?_, fun x hx ha => ?_, fun hdead => ?_⟩
  · rw [show ({ changed with version } : ConnectionConfig).apiHosts = config.apiHosts from
      hchanged.apiHosts]
    rcases hchanged.approved hsound.keyed hx ha with
      hmem | ⟨shown, hshown, rfl, hop, howner, hid, hhash, hvalid⟩
    · exact (hsound.recipe x hmem ha).imp_left (·.concat call)
    · refine ⟨made_last ?_, hvalid⟩
      rw [hconfig]
      exact ⟨hop, howner, some_of_getD hid (recipeId_ne_empty hvalid), some_of_getD hhash (hhex _),
        ⟨rfl, rfl⟩, shown, hshown, rfl⟩
  · rcases hchanged.approvedMap hx ha with hmem | ⟨shown, hshown, rfl, hop, howner, hhash, hvalid⟩
    · exact (hsound.noticeMap x hmem ha).imp_left (·.concat call)
    · refine ⟨made_last ?_, hvalid⟩
      rw [hconfig]
      exact ⟨hop, howner, some_of_getD hhash (hhex _), rfl, shown, hshown, rfl⟩
  · cases hchanged.status hlive hdead
    exact ⟨disconnect_unapproved, rfl, rfl⟩

theorem Fresh.sound {start : ConnectionConfig} (hfresh : start.Fresh) : Sound lib start [] start where
  keyed := by rw [Keyed, hfresh.recipes]; exact List.nodup_nil
  recipe x hx := by rw [hfresh.recipes] at hx; cases hx
  noticeMap x hx := by rw [hfresh.noticeMap] at hx; cases hx
  ended hdead := by rw [hfresh.live] at hdead; cases hdead

theorem step_disconnected (hdead : config.status = .disconnected) : config.step lib call = config :=
  (config.step_cases lib call).resolve_right fun h => h.1 hdead

/-- In every run of commands on a new connection, what is approved was approved by the owner or an
admin with the hash of its body, and passes its checks; a replaced body is not approved; and a
disconnected connection stays as it is, with nothing approved and no secrets. -/
theorem run_sound (lib : Libs) (hhex : ∀ text, lib.sha256Hex text ≠ "") {start : ConnectionConfig}
    (hfresh : start.Fresh) (calls : List ConnectionCall) :
    let config := runFrom (step lib) start calls
    (∀ stored ∈ config.recipes, stored.status = .approved →
      Made (step lib) (ApprovesRecipe lib stored) start calls ∧
        validateRecipe stored.recipe config.apiHosts = .ok ()) ∧
    (∀ call, ∀ old ∈ config.recipes, ∀ new ∈ (config.step lib call).recipes, new.id = old.id →
      new.recipe ≠ old.recipe → new.status ≠ .approved) ∧
    (∀ call config' effect, config.apply lib call = .ok (config', effect) →
      call.action.op = .proposeRecipe → ∃ recipe ∈ call.action.recipe, ∀ x ∈ config'.recipes,
        x.id = recipe.recipeId → x.recipe = recipe ∧ x.status ≠ .approved) ∧
    (∀ stored ∈ config.noticeMap, stored.status = .approved →
      Made (step lib) (ApprovesNoticeMap lib stored) start calls ∧
        validateNoticeMap stored.map = .ok ()) ∧
    (∀ call, ∀ old ∈ config.noticeMap, ∀ new ∈ (config.step lib call).noticeMap,
      new.map ≠ old.map → new.status ≠ .approved) ∧
    (∀ call config' effect, config.apply lib call = .ok (config', effect) →
      call.action.op = .proposeNoticeMap → ∃ stored ∈ config'.noticeMap,
        call.action.noticeMap = some stored.map ∧ stored.status ≠ .approved) ∧
    (config.status = .disconnected → (∀ call, config.step lib call = config) ∧
      (∀ stored ∈ config.recipes, stored.status ≠ .approved) ∧
      config.hasApiKey = false ∧ config.hasSigningSecret = false) := by
  have hsound := runFrom_history (p := Sound lib start) hfresh.sound
    (fun calls call hsound => hsound.step hhex call) calls
  refine ⟨hsound.recipe, ?_, ?_, hsound.noticeMap, ?_, ?_, ?_⟩
  · exact fun call old hold new hnew => replaced_unapproved hsound.keyed hold hnew
  · exact fun call config' effect htaken => proposed_unapproved hsound.keyed htaken
  · exact fun call old hold new hnew => replacedMap_unapproved hold hnew
  · exact fun call config' effect htaken => proposedMap_unapproved htaken
  · exact fun hdead => ⟨fun call => step_disconnected hdead, hsound.ended hdead⟩

section Sample

def signedLibs : Libs where
  sha256Hex text := "sha256:" ++ text
  cardRef _ := "card"
  derivedEventId _ _ _ := "event"
  jsonString s := "\"" ++ s ++ "\""
  percentEncode c := [c]
  parseUrl _ := none

def newConnection : ConnectionConfig where
  label := "Provider"
  route := .api
  status := .connected
  isDefault := true
  apiHosts := ["api.provider.com"]
  recipes := []
  noticeMap := none
  signature := none
  hasApiKey := true
  hasSigningSecret := false
  version := 1

def lookupRecipe : Recipe where
  recipeId := "lookup"
  title := "Look up a payment"
  purpose := .lookupPayment
  method := "GET"
  host := "api.provider.com"
  path := "/v1/payments/{{provider_reference}}"
  query := []
  headers := []
  bodyEncoding := .none
  body := ""
  extract :=
    { url := none
      reference := some "/id"
      amount := some ⟨"/amount", .minor⟩
      currency := some "/currency"
      paid := some ⟨"/status", "paid"⟩ }

def byAgent (action : ConnectionAction) : ConnectionCall := ⟨action, "agent", .ownedAgent, 10⟩

def byOwner (action : ConnectionAction) : ConnectionCall := ⟨action, "owner", .ownerAdmin, 20⟩

def approvesBoth : List ConnectionCall :=
  [byAgent { op := .proposeRecipe, recipe := some lookupRecipe },
    byAgent { op := .proposeNoticeMap, noticeMap := some { reference := some "/id" } },
    byOwner { op := .approveRecipe, recipeId := some "lookup",
              recipeHash := some (recipeHash signedLibs lookupRecipe) },
    byOwner { op := .approveNoticeMap,
              mapHash := some (noticeMapHash signedLibs { reference := some "/id" }) }]

end Sample

theorem run_sound_approvesBoth :
    (∃ stored ∈ (runFrom (step signedLibs) newConnection approvesBoth).recipes,
      stored.status = .approved ∧
        Made (step signedLibs) (ApprovesRecipe signedLibs stored) newConnection approvesBoth) ∧
    ∃ stored ∈ (runFrom (step signedLibs) newConnection approvesBoth).noticeMap,
      stored.status = .approved ∧
        Made (step signedLibs) (ApprovesNoticeMap signedLibs stored) newConnection approvesBoth := by
  have hfresh : newConnection.Fresh := ⟨rfl, rfl, rfl⟩
  have hsound := run_sound signedLibs (fun text => by simp [signedLibs]) hfresh approvesBoth
  have hrecipe : ∃ stored ∈ (runFrom (step signedLibs) newConnection approvesBoth).recipes,
      stored.status = .approved := by decide +kernel
  have hmap : ∃ stored ∈ (runFrom (step signedLibs) newConnection approvesBoth).noticeMap,
      stored.status = .approved := by decide +kernel
  obtain ⟨stored, hstored, happroved⟩ := hrecipe
  obtain ⟨storedMap, hstoredMap, happrovedMap⟩ := hmap
  exact ⟨⟨stored, hstored, happroved, (hsound.1 stored hstored happroved).1⟩,
    storedMap, hstoredMap, happrovedMap, (hsound.2.2.2.1 storedMap hstoredMap happrovedMap).1⟩

end ConnectionConfig

end Colony.Money
