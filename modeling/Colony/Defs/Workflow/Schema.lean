import Colony.Defs.Core.Event
import Colony.Defs.Core.Text

namespace Colony.Workflow

open Colony.Core Colony.Data

inductive WorkflowError
  | invalidYaml (detail : String)
  | invalidDefinition (detail : String)
  | conditionError (detail : String)
  | templateError (detail : String)
  | stepTimeout (stepId : String) (timeoutSecs : Nat)
  | webhookError (detail : String)
  | capacityExceeded
  | database (detail : String)
  | unauthorized (detail : String)
  | notImplemented (action : String)
  deriving DecidableEq

def parseDurationSecs (text : String) : Except WorkflowError Nat :=
  let duration := trim text
  let scaled (n : String) (factor : Nat) : Except WorkflowError Nat :=
    match parseU64 n with
    | none => .error (.invalidDefinition ("invalid duration: " ++ duration))
    | some n =>
      if n * factor < 2 ^ 64 then .ok (n * factor)
      else .error (.invalidDefinition ("duration overflow: " ++ duration))
  match stripSuffix duration 'h', stripSuffix duration 'm', stripSuffix duration 's' with
  | some n, _, _ => scaled (trim n) 3600
  | none, some n, _ => scaled (trim n) 60
  | none, none, some n => scaled (trim n) 1
  | none, none, none => scaled duration 1

/-- What other libraries parse: whether a hex string is a public key, a string a timezone, and
whether a normalized cron expression is a schedule. -/
structure Parsers where
  publicKey : String → Bool
  cron : String → Except String Unit
  timezone : String → Bool

def normalizeCron (expr : String) : String :=
  let fields := (expr.toList.splitBy fun a b => isWhitespace a == isWhitespace b).filter
    fun field => !field.all isWhitespace
  match fields.length with
  | 5 => "0 " ++ expr ++ " *"
  | 6 => expr ++ " *"
  | _ => expr

namespace WorkflowDef

def validStepId (id : String) : Bool :=
  !id.isEmpty && id.utf8ByteSize ≤ 64 && id.toList.all fun c => c.isAlphanum || c == '_'

end WorkflowDef

end Colony.Workflow
