import Colony.Defs.Core.Json
import Colony.Defs.Data.Typed
import Colony.Defs.Workflow.Schema

namespace Colony.Workflow

open Colony.Core Colony.Data

structure TriggerContext where
  text : String
  author : String
  channelId : String
  timestamp : String
  emoji : String
  messageId : String
  isReply : Bool
  webhookFields : Dict String String
  deriving DecidableEq

instance : Inhabited TriggerContext := ⟨⟨"", "", "", "", "", "", false, ∅⟩⟩

inductive EvalValue (F : Type)
  | string (s : String)
  | float (f : F)
  | int (i : Int)
  | boolean (b : Bool)
  | empty
  deriving DecidableEq

inductive ValueType
  | string
  | float
  | int
  | boolean
  | empty
  deriving DecidableEq

def EvalValue.type {F : Type} : EvalValue F → ValueType
  | .string _ => .string
  | .float _ => .float
  | .int _ => .int
  | .boolean _ => .boolean
  | .empty => .empty

structure JsonLib (N F : Type) where
  asI64 : N → Option Int
  asF64 : N → Option F
  text : Json N → String

variable {N F : Type} (lib : JsonLib N F)

def jsonValueToEval : Json N → EvalValue F
  | .string s => .string s
  | .bool b => .boolean b
  | .number n =>
    match lib.asI64 n with
    | some i => .int i
    | none =>
      match lib.asF64 n with
      | some f => .float f
      | none => .string (lib.text (.number n))
  | .null => .empty
  | other => .string (lib.text other)

abbrev Assignments (F : Type) := List (String × EvalValue F)

def isReservedKey (key : String) : Bool :=
  "trigger_".toList.isPrefixOf key.toList || "steps_".toList.isPrefixOf key.toList

def webhookAssignments (fields : Dict String String) : Assignments F :=
  (fields.entries.filter fun e => !isReservedKey e.1).map fun e =>
    ("trigger_" ++ e.1, .string e.2)

def triggerAssignments (ctx : TriggerContext) : Assignments F :=
  [("trigger_text", .string ctx.text), ("trigger_author", .string ctx.author),
    ("trigger_channel_id", .string ctx.channelId), ("trigger_timestamp", .string ctx.timestamp),
    ("trigger_emoji", .string ctx.emoji), ("trigger_message_id", .string ctx.messageId),
    ("trigger_is_reply", .boolean ctx.isReply)]

def stepVariable (stepId field : String) : String :=
  "steps_" ++ stepId ++ "_output_" ++ field

def outputFields : Json N → List (String × Json N)
  | .object members => members
  | _ => []

def outputAssignments (outputs : Dict String (Json N)) : Assignments F :=
  outputs.entries.flatMap fun e => (outputFields e.2).map fun m =>
    (stepVariable e.1 m.1, jsonValueToEval lib m.2)

/-- The webhook fields are set first, so that the trigger's own fields are set over them. -/
def buildEvalContext (ctx : TriggerContext) (outputs : Dict String (Json N)) :
    Except (EvalValue F × EvalValue F) (Dict String (EvalValue F)) := do
  let c ← assignAll EvalValue.type ∅ (webhookAssignments ctx.webhookFields)
  let c ← assignAll EvalValue.type c (triggerAssignments ctx)
  assignAll EvalValue.type c (outputAssignments lib outputs)

theorem stepVariable_head (stepId field : String) :
    (stepVariable stepId field).toList.head? = some 's' := by
  simp [stepVariable]

theorem trigger_head (key : String) : ("trigger_" ++ key).toList.head? = some 't' := by simp

theorem triggerAssignments_head (ctx : TriggerContext) :
    ∀ a ∈ (triggerAssignments ctx : Assignments F), a.1.toList.head? = some 't' := by
  simp [triggerAssignments]

theorem triggerAssignments_unique (ctx : TriggerContext) {name : String} {v v' : EvalValue F}
    (h : (name, v) ∈ triggerAssignments ctx) (h' : (name, v') ∈ triggerAssignments ctx) :
    v' = v := by
  have hnodup : ((triggerAssignments ctx : Assignments F).map Prod.fst).Nodup := by
    simp [triggerAssignments]
  exact (Prod.mk.inj (List.inj_on_of_nodup_map hnodup h' h rfl)).2

theorem append_right_inj {key key' : String} (h : "trigger_" ++ key = "trigger_" ++ key') :
    key = key' := by
  have hlist := congrArg String.toList h
  rw [String.toList_append, String.toList_append] at hlist
  exact String.toList_inj.1 (List.append_cancel_left hlist)

theorem mem_outputAssignments {outputs : Dict String (Json N)} {a : String × EvalValue F} :
    a ∈ outputAssignments lib outputs ↔ ∃ stepId output field v, outputs.lookup stepId = some output ∧
      (field, v) ∈ outputFields output ∧ a = (stepVariable stepId field, jsonValueToEval lib v) := by
  simp only [outputAssignments, List.mem_flatMap, List.mem_map]
  constructor
  · rintro ⟨e, he, m, hm, rfl⟩
    exact ⟨e.1, e.2, m.1, m.2, (Dict.mem_lookup_entries _ _ _).2 he, hm, rfl⟩
  · rintro ⟨stepId, output, field, v, hlookup, hm, rfl⟩
    exact ⟨⟨stepId, output⟩, (Dict.mem_lookup_entries _ _ _).1 hlookup, (field, v), hm, rfl⟩

/-- The variables a condition relies on have the values of the relay and of the steps. -/
structure Faithful (ctx : TriggerContext) (outputs : Dict String (Json N))
    (c : Dict String (EvalValue F)) : Prop where
  trigger : ∀ a ∈ triggerAssignments ctx, c.lookup a.1 = some a.2
  steps : ∀ stepId output field v, outputs.lookup stepId = some output →
    (field, v) ∈ outputFields output →
      c.lookup (stepVariable stepId field) = some (jsonValueToEval lib v)

def Unambiguous (outputs : Dict String (Json N)) : Prop :=
  ∀ stepId output field v stepId' output' field' v', outputs.lookup stepId = some output →
    (field, v) ∈ outputFields output → outputs.lookup stepId' = some output' →
      (field', v') ∈ outputFields output' → stepVariable stepId field = stepVariable stepId' field' →
        jsonValueToEval lib v = jsonValueToEval lib v'

theorem buildEvalContext_eq (ctx : TriggerContext) (outputs : Dict String (Json N)) :
    buildEvalContext lib ctx outputs = assignAll EvalValue.type ∅
      (webhookAssignments ctx.webhookFields ++
        (triggerAssignments ctx ++ outputAssignments lib outputs)) := by
  rw [assignAll_append]
  simp only [assignAll_append]
  rfl

theorem trigger_type {ctx : TriggerContext} (h : "is_reply" ∉ ctx.webhookFields)
    {a : String × EvalValue F}
    (ha : a ∈ webhookAssignments ctx.webhookFields ++ triggerAssignments ctx) :
    a.1.toList.head? = some 't' ∧
      a.2.type = if a.1 = "trigger_is_reply" then .boolean else .string := by
  rcases List.mem_append.1 ha with ha | ha
  · obtain ⟨e, he, rfl⟩ := List.mem_map.1 ha
    refine ⟨trigger_head e.1, ?_⟩
    rw [if_neg]
    · rfl
    · intro hname
      have hkey : e.1 = "is_reply" := append_right_inj hname
      exact h (hkey ▸ AList.mem_keys.2 (List.mem_map_of_mem (List.mem_filter.1 he).1))
  · refine ⟨triggerAssignments_head ctx a ha, ?_⟩
    simp only [triggerAssignments, List.mem_cons, List.not_mem_nil, or_false] at ha
    rcases ha with rfl | rfl | rfl | rfl | rfl | rfl | rfl <;> rfl

theorem buildEvalContext_iff (ctx : TriggerContext) (outputs : Dict String (Json N)) :
    (∃ c, buildEvalContext lib ctx outputs = .ok c ∧ Faithful lib ctx outputs c) ↔
      "is_reply" ∉ ctx.webhookFields ∧ Unambiguous lib outputs := by
  rw [buildEvalContext_eq]
  constructor
  · rintro ⟨c, hc, hfaithful⟩
    refine ⟨fun hreply => ?_, ?_⟩
    · obtain ⟨s, hs⟩ := AList.lookup_isSome.2 hreply |> Option.isSome_iff_exists.1
      have hwebhook : (("trigger_is_reply", .string s) : String × EvalValue F) ∈
          webhookAssignments ctx.webhookFields :=
        List.mem_map.2 ⟨⟨"is_reply", s⟩, List.mem_filter.2
          ⟨(Dict.mem_lookup_entries _ _ _).1 hs,
            show (!isReservedKey "is_reply") = true by decide⟩, rfl⟩
      obtain ⟨now, hnow, htype⟩ := assignAll_mem hc (List.mem_append_left _ hwebhook)
      have hvalue := hfaithful.trigger ("trigger_is_reply", .boolean ctx.isReply)
        (by simp [triggerAssignments])
      rw [hvalue] at hnow
      cases hnow
      cases htype
    · intro stepId output field v stepId' output' field' v' hout hv hout' hv' hname
      have hvalue := hfaithful.steps stepId output field v hout hv
      rw [hname, hfaithful.steps stepId' output' field' v' hout' hv'] at hvalue
      exact (Option.some.inj hvalue).symm
  · rintro ⟨hreply, hsame⟩
    -- two outputs of one name have one value
    have houtputs {name : String} {v v' : EvalValue F} (h : (name, v) ∈ outputAssignments lib outputs)
        (h' : (name, v') ∈ outputAssignments lib outputs) : v' = v := by
      obtain ⟨id, out, field, w, hout, hw, heq⟩ := (mem_outputAssignments lib).1 h
      obtain ⟨id', out', field', w', hout', hw', heq'⟩ := (mem_outputAssignments lib).1 h'
      obtain ⟨rfl, rfl⟩ := Prod.mk.inj heq
      obtain ⟨hname, rfl⟩ := Prod.mk.inj heq'
      exact hsame id' out' field' w' id out field w hout' hw' hout hw hname.symm
    have hhead {a : String × EvalValue F} (h : a ∈ outputAssignments lib outputs) :
        a.1.toList.head? ≠ some 't' := by
      obtain ⟨id, out, field, w, -, -, rfl⟩ := (mem_outputAssignments lib).1 h
      rw [stepVariable_head]
      decide
    obtain ⟨c, hc⟩ := @assignAll_of_kinds _ _ _ _ _ EvalValue.type ∅
      (webhookAssignments ctx.webhookFields ++
        (triggerAssignments ctx ++ outputAssignments lib outputs)) (by simp) (by
        intro a ha b hb hab
        rw [← List.append_assoc] at ha hb
        rcases List.mem_append.1 ha with ha | ha <;> rcases List.mem_append.1 hb with hb | hb
        · rw [(trigger_type hreply ha).2, (trigger_type hreply hb).2, hab]
        · exact absurd (hab ▸ (trigger_type hreply ha).1) (hhead hb)
        · exact absurd (hab ▸ (trigger_type hreply hb).1) (hhead ha)
        · obtain ⟨name, v⟩ := a
          obtain ⟨name', v'⟩ := b
          cases hab
          rw [houtputs hb ha])
    refine ⟨c, hc, ?_, ?_⟩
    · intro a ha
      rw [assignAll_append, bind_eq_ok] at hc
      obtain ⟨c₁, -, hc⟩ := hc
      refine assignAll_value hc (List.mem_append_left _ ha) fun v' hv' => ?_
      rcases List.mem_append.1 hv' with hv' | hv'
      · exact triggerAssignments_unique ctx ha hv'
      · exact absurd (triggerAssignments_head ctx a ha) (@hhead (a.1, v') hv')
    · intro stepId output field v hout hv
      rw [← List.append_assoc, assignAll_append, bind_eq_ok] at hc
      obtain ⟨c₁, -, hc⟩ := hc
      have hmem := (mem_outputAssignments lib).2 ⟨stepId, output, field, v, hout, hv, rfl⟩
      exact assignAll_value hc hmem fun v' hv' => houtputs hmem hv'

def integerLib : JsonLib Int Unit := ⟨some, fun _ => none, fun _ => ""⟩

def webhookContext (field value : String) : TriggerContext :=
  { (default : TriggerContext) with webhookFields := (∅ : Dict String String).insert field value }

theorem buildEvalContext_spoilt :
    buildEvalContext integerLib (webhookContext "is_reply" "yes") ∅ =
        .error (.string "yes", .boolean false) ∧
      ∃ outputs : Dict String (Json Int), (∀ id ∈ outputs, WorkflowDef.validStepId id = true) ∧
        ¬ ∃ c, buildEvalContext integerLib (webhookContext "amount" "1") outputs = .ok c ∧
          Faithful integerLib (webhookContext "amount" "1") outputs c := by
  refine ⟨rfl, ((∅ : Dict String (Json Int)).insert "a" (.object [("b_output_c", .string "1")])).insert
    "a_output_b" (.object [("c", .string "2")]), ?_, ?_⟩
  · intro id hid
    simp only [AList.mem_insert] at hid
    rcases hid with rfl | rfl | hid
    · decide
    · decide
    · exact absurd hid (AList.notMem_empty _)
  · rintro ⟨c, -, hfaithful⟩
    have hone := hfaithful.steps "a" (.object [("b_output_c", .string "1")]) "b_output_c"
      (.string "1") rfl (by simp [outputFields])
    have htwo := hfaithful.steps "a_output_b" (.object [("c", .string "2")]) "c" (.string "2") rfl
      (by simp [outputFields])
    rw [show stepVariable "a" "b_output_c" = stepVariable "a_output_b" "c" by decide, htwo] at hone
    simp [jsonValueToEval] at hone

end Colony.Workflow
