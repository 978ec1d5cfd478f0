import OpenRupiv.Mcp.Server
import OpenRupiv.Js.Parse

/-!
# The A2A endpoint

`handleSendMessage` and `handleGetTask` of `packages/runtime/src/a2a.ts`, for a client that was
authenticated.  What a procedure does through its context are calls of their own.
-/

namespace OpenRupiv.Runtime

open Js Lib Spec Audit

structure A2aClientEntry where
  clientId : String
  allowedSkills : List String

structure A2aDeps where
  spec : AppSpec
  /-- The skills that have a procedure. -/
  procedures : List String
  /-- The message of an error of the driver. -/
  driverMessage : Text

inductive SendMessageReply where
  | result (id : Uuid) (status : TaskStatus) (result : Json)
  | error (code : Int) (message : Text)

def isSuccessOutcome (outcome : AgentTaskOutcome) : Bool := outcome.reason = ofString "proposed"

/-- Appends, and tells whether the append succeeded. -/
def auditBestEffort {pg : Postgres} (sha256 : String → String) (input : AuditRecordInput) :
    Async pg Thrown Bool := do
  let outcome ← (append sha256 input : Async pg Thrown AuditRecord).result
  match outcome with
  | .ok _ => return true
  | .error _ =>
      log (.appendFailed input)
      return false

/-- The first part whose kind is `data`; a part that is `null` has no properties at all. -/
def findDataPart : List Json → Except Unit (Option Json)
  | [] => .ok none
  | part :: rest =>
      match part with
      | .scalar .null => .error ()
      | _ =>
          match Mcp.property part "kind" with
          | some (.scalar (.str kind)) =>
              if kind = ofString "data" then .ok (some part) else findDataPart rest
          | _ => findDataPart rest

/-- `params.message.parts`, when it is an array. -/
def messageParts (params : Json) : List Json :=
  match (Mcp.property params "message").bind fun message => Mcp.property message "parts" with
  | some (.arr parts) => parts
  | _ => []

/-- `dataPart?.data ?? {}`. -/
def messageInput (dataPart : Option Json) : Json :=
  match dataPart.bind fun part => Mcp.property part "data" with
  | none | some (.scalar .null) => Object.empty.toValue.json
  | some data => data

section SendMessage

variable (sha256 : String → String) (deps : A2aDeps) (client : A2aClientEntry)

def A2aClientEntry.identity : String := "a2a:" ++ client.clientId

def skillInput (skill : String) : PolicyInput where
  subjectId := client.identity
  subjectRoles := []
  action := "a2a.skill:" ++ skill
  resourceType := "a2a.skill"
  resourceId := some skill
  allowedRoles := []

def notAllowedRecord (skill : Option Text) : AuditRecordInput where
  event := ofString "a2a.call"
  actor := ofString client.identity
  actorType := .agent
  subject := skill
  decision := some .deny
  attributes := some (literal
    [("skill", (skill.map ofText).getD nullValue), ("reason", ofText (ofString "skill_not_allowed"))])

def skillRecord (skill : String) (decision : PolicyDecision) : AuditRecordInput where
  event := ofString "a2a.call"
  actor := ofString client.identity
  actorType := .agent
  subject := some (ofString skill)
  decision := some (if decision.allow then .allow else .deny)
  attributes := some (literal
    [("skill", ofText (ofString skill)), ("reason", ofText decision.reason),
      ("policyId", ofText decision.policyId)])

def TaskStatus.text : TaskStatus → String
  | .completed => "completed"
  | .failed => "failed"

def a2aResultRecord (skill : String) (taskId : Uuid) (status : TaskStatus) : AuditRecordInput where
  event := ofString "a2a.result"
  actor := ofString client.identity
  actorType := .agent
  subject := some (ofString skill)
  decision := none
  attributes := some (literal
    [("taskId", ofText (ofString taskId)), ("status", ofText (ofString status.text))])

def messageValue (message : Text) : Value := (literal [("message", ofText message)]).toValue

def outcomeValue (outcome : AgentTaskOutcome) : Value :=
  (literal ([("reason", ofText outcome.reason)] ++
    (outcome.detail.map fun detail => ("detail", detail.toValue)).toList)).toValue

variable {pg : Postgres}

/-- The procedure on its context, which is finished once, whatever the outcome. -/
def runProcedure (skill : String) (task : AgentTaskDef) (input : Json) :
    Async pg Thrown (TaskStatus × Value) := do
  let identity := Agents.identityOf deps.spec skill
  let answer ← ext (.dispatch (.procedure skill input))
  match answer with
  | .error message =>
      log (.a2aTaskFailed skill client.clientId)
      Agents.finish sha256 identity task
        { reason := ofString "error", detail := some (literal [("message", ofText message)]) }
      return (.failed, messageValue (ofString "task execution failed"))
  | .ok outcome =>
      Agents.finish sha256 identity task outcome
      return (if isSuccessOutcome outcome then .completed else .failed, outcomeValue outcome)

/-- The task of an allowed call. -/
def runSkill (skill : String) (input : Json) : Async pg Thrown (TaskStatus × Value) :=
  if skill ∉ deps.procedures then
    return (.failed, messageValue (ofString "skill " ++ jsonText (ofString skill) ++
      ofString " has no registered procedure on this deployment"))
  else match (Agents.tasksByName deps.spec).lookup skill with
  | none =>
      return (.failed, messageValue (ofString "no agent task named " ++ jsonText (ofString skill)))
  | some task => runProcedure sha256 deps client skill task input

/-- The task with its row and its record; the record is best-effort, as the task has run. -/
def runTask (skill : String) (input : Json) : Async pg Thrown SendMessageReply := do
  let taskId ← ext .random
  let (status, result) ← runSkill sha256 deps client skill input
  query (.insertTask taskId client.clientId skill status result)
  let _ ← auditBestEffort sha256 (a2aResultRecord client skill taskId status)
  return .result taskId status result.json

def callSkill (skill : String) (input : Json) : Async pg Thrown SendMessageReply := do
  let decision ← ext (.decide (skillInput client skill))
  let audited ← auditBestEffort sha256 (skillRecord client skill decision)
  if audited = false then return .error (-32000) (ofString "audit unavailable")
  else if decision.allow = false then
    return .error (-32001) (ofString "Forbidden: " ++ decision.reason)
  else runTask sha256 deps client skill input

def skillNotAllowed (skill : Option Text) : SendMessageReply :=
  .error (-32602) (ofString "skill " ++
    (match skill with
    | none => ofString "undefined"
    | some s => jsonText s) ++
    ofString (" is not allowed for client " ++ client.clientId))

def handleSendMessage (params : Json) : Async pg Thrown SendMessageReply :=
  let skill := Mcp.textOf (Mcp.property params "skill")
  match findDataPart (messageParts params) with
  | .error _ => .throw .fault
  | .ok dataPart =>
      match client.allowedSkills.find? fun s => skill = some (ofString s) ∧ s ≠ "" with
      | some allowed => callSkill sha256 deps client allowed (messageInput dataPart)
      | none => do
          let audited ← auditBestEffort sha256 (notAllowedRecord client skill)
          if audited then return skillNotAllowed client skill
          else return .error (-32000) (ofString "audit unavailable")

end SendMessage

section GetTask

variable (toNumber : Text → Num)

def asciiString (t : Text) : String := String.ofList (t.map fun u => Char.ofNat u.toNat)

def idRequired : SendMessageReply := .error (-32602) (ofString "Invalid params: id is required")

def idMalformed : SendMessageReply :=
  .error (-32602) (ofString "Invalid params: id must be a UUID")

def taskNotFound : SendMessageReply := .error (-32001) (ofString "task not found")

/-- The task of a row; a `result` that is a string is parsed. -/
def taskReply (row : A2aTask) : Except Thrown SendMessageReply :=
  match row.result with
  | .scalar (.str s) =>
      match parse toNumber s with
      | some result => .ok (.result row.id row.status result)
      | none => .error .fault
  | result => .ok (.result row.id row.status result)

def handleGetTask {pg : Postgres} (client : A2aClientEntry) (params : Json) :
    Async pg Thrown SendMessageReply :=
  match Mcp.textOf (Mcp.property params "id") with
  | none => return idRequired
  | some taskId =>
      if taskId = [] then return idRequired
      else if isUuid taskId = false then return idMalformed
      else do
        let row ← query (.selectTask (asciiString taskId) client.clientId)
        match row with
        | none => return taskNotFound
        | some row => Prog.ofExcept (taskReply toNumber row)

end GetTask

end OpenRupiv.Runtime
