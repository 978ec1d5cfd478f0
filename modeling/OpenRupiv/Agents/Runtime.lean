import OpenRupiv.Audit.Literal
import OpenRupiv.Runtime.Audit
import OpenRupiv.Sandbox.Files

/-!
# The agent runtime

`packages/agents/src/runtime.ts`: what a task may do through its context.  The validator of tool
inputs and the messages of the driver are parameters.
-/

namespace OpenRupiv.Agents

open Js Lib Spec Audit OpenRupiv.Runtime

structure AgentIdentity where
  id : String
  roles : List String

structure RegisteredTool where
  name : String
  inputSchema : Value
  entrypoint : String

structure CreateAgentRuntimeDeps where
  tools : List RegisteredTool
  workspaceRoot : String := "/workspaces"
  /-- What the validator has against an input, if anything. -/
  validate : Value → Object → Option Text
  /-- The message of an error of the driver. -/
  driverMessage : Text

structure ToolCallRequest where
  tool : String
  input : Object

inductive AgentErrorCode where
  | ERR_TOOL_NOT_ALLOWED
  | ERR_TOOL_UNKNOWN
  | ERR_TOOL_INPUT
  | ERR_POLICY_DENIED
  | ERR_SANDBOX_VIOLATION
  | ERR_SANDBOX_LIMIT
  | ERR_TOOL_FAILED
  | ERR_AUDIT_UNAVAILABLE
  deriving DecidableEq

inductive ToolCallResult where
  | ok (output : Json)
  | failed (code : AgentErrorCode) (message : Text)

structure AgentProposal where
  id : Uuid
  agentId : String
  entityTable : String
  recordId : String
  workflow : String
  transition : String
  rationale : String
  createdAt : Text

structure ProposeRequest where
  entityTable : String
  recordId : String
  workflow : String
  transition : String
  rationale : String

/-- `err.message`. -/
def errorMessage (deps : CreateAgentRuntimeDeps) : Thrown → Text
  | .runtime error => error.message
  | .fault => deps.driverMessage

/-- The digest and the byte size of a canonicalized value (`hashing.ts`, and `digest.ts` of the
`mcp` package). -/
def digestValue (sha256 : String → String) (value : Json) : String × Nat :=
  let canonical := String.ofList (stringify (canon value))
  (sha256 canonical, canonical.utf8ByteSize)

def failureReason : SandboxFailure → String
  | .violation _ => "violation"
  | .limit _ => "limit"
  | .tool_error => "tool_error"

def mapSandboxResult : SandboxResult → ToolCallResult
  | .ok output => .ok output
  | .failed (.violation _) message => .failed .ERR_SANDBOX_VIOLATION message
  | .failed (.limit _) message => .failed .ERR_SANDBOX_LIMIT message
  | .failed .tool_error message => .failed .ERR_TOOL_FAILED message

def outputForDigest : SandboxResult → Json
  | .ok output => output
  | .failed reason message =>
      let detail := match reason with
        | .violation egress =>
            [("violation", ofText (ofString (if egress then "network_egress" else "fs_escape")))]
        | .limit what => [("limit", ofText (ofString what))]
        | .tool_error => []
      (literal ([("reason", ofText (ofString (failureReason reason)))] ++ detail ++
        [("message", ofText message)])).toValue.json

def identityOf (spec : AppSpec) (taskName : String) : AgentIdentity where
  id := "agent:" ++ taskName ++ "@" ++ spec.app.slug
  roles := []

def tasksByName (spec : AppSpec) : List (String × AgentTaskDef) :=
  newMap ((spec.agents.getD []).map fun task => (task.name, task))

def toolsByName (deps : CreateAgentRuntimeDeps) : List (String × RegisteredTool) :=
  newMap (deps.tools.map fun tool => (tool.name, tool))

section Calls

variable (sha256 : String → String) (deps : CreateAgentRuntimeDeps) (identity : AgentIdentity)
  (task : AgentTaskDef)

/-- An `agent` record without a subject. -/
def agentRecord (event : String) (decision : Option Decision) (entries : List (String × Value)) :
    AuditRecordInput where
  event := ofString event
  actor := ofString identity.id
  actorType := .agent
  subject := none
  decision := decision
  attributes := some (literal entries)

def toolInput (req : ToolCallRequest) : PolicyInput where
  subjectId := identity.id
  subjectRoles := identity.roles
  action := "agent.tool:" ++ req.tool
  resourceType := "agent.tool"
  resourceId := some req.tool
  allowedRoles := []
  task := some task.name

def toolCallRecord (req : ToolCallRequest) (decision : PolicyDecision) : AuditRecordInput :=
  let (inputDigest, inputBytes) := digestValue sha256 req.input.toValue.json
  agentRecord identity "agent.tool_call" (some (if decision.allow then .allow else .deny))
    [("task", ofText (ofString task.name)), ("tool", ofText (ofString req.tool)),
      ("inputDigest", ofText (ofString inputDigest)), ("inputBytes", ofNat inputBytes),
      ("policyReason", ofText decision.reason), ("policyId", ofText decision.policyId)]

def toolResultRecord (req : ToolCallRequest) (result : SandboxResult) (durationMs : Nat) :
    AuditRecordInput :=
  let (outputDigest, outputBytes) := digestValue sha256 (outputForDigest result)
  let (decision, outcome) := match result with
    | .ok _ => (Decision.allow, "ok")
    | .failed reason _ => (Decision.deny, failureReason reason)
  agentRecord identity "agent.tool_result" (some decision)
    [("task", ofText (ofString task.name)), ("tool", ofText (ofString req.tool)),
      ("outcome", ofText (ofString outcome)), ("durationMs", ofNat durationMs),
      ("outputDigest", ofText (ofString outputDigest)), ("outputBytes", ofNat outputBytes)]

def proposedRecord (p : ProposeRequest) (id : Uuid) : AuditRecordInput where
  event := ofString "agent.transition_proposed"
  actor := ofString identity.id
  actorType := .agent
  subject := some (ofString (p.entityTable ++ ":" ++ p.recordId))
  decision := none
  attributes := some (literal
    [("task", ofText (ofString task.name)), ("workflow", ofText (ofString p.workflow)),
      ("transition", ofText (ofString p.transition)), ("proposalId", ofText (ofString id))])

def finishedRecord (outcome : AgentTaskOutcome) : AuditRecordInput :=
  agentRecord identity "agent.task_finished" none
    ([("task", ofText (ofString task.name)), ("reason", ofText outcome.reason)] ++
      (outcome.detail.map fun detail => ("detail", detail.toValue)).toList)

def startedRecord (taskName : String) : AuditRecordInput :=
  agentRecord identity "agent.task_started" none [("task", ofText (ofString taskName))]

variable {pg : Postgres}

def callTool (req : ToolCallRequest) : Async pg Thrown ToolCallResult :=
  if req.tool ∉ task.tools.getD [] then
    return .failed .ERR_TOOL_NOT_ALLOWED (ofString "task " ++ jsonText (ofString task.name) ++
      ofString " may not call tool " ++ jsonText (ofString req.tool))
  else match (toolsByName deps).lookup req.tool with
  | none =>
      return .failed .ERR_TOOL_UNKNOWN
        (ofString "no registered tool named " ++ jsonText (ofString req.tool))
  | some tool =>
      match deps.validate tool.inputSchema req.input with
      | some detail =>
          return .failed .ERR_TOOL_INPUT (ofString "input for tool " ++
            jsonText (ofString req.tool) ++ ofString " failed schema validation: " ++ detail)
      | none => do
          let decision ← ext (.decide (toolInput identity task req))
          let appended ← (append sha256 (toolCallRecord sha256 identity task req decision) :
            Async pg Thrown AuditRecord).result
          match appended with
          | .error err =>
              return .failed .ERR_AUDIT_UNAVAILABLE
                (ofString "audit append failed before tool execution: " ++ errorMessage deps err)
          | .ok _ =>
              if decision.allow = false then return .failed .ERR_POLICY_DENIED decision.reason
              else do
                let id ← ext .random
                let workspaceDir := Sandbox.Files.join [ofString deps.workspaceRoot, ofString id]
                let executed ← ext (.dispatch
                  (.sandbox tool.name tool.entrypoint workspaceDir req.input.toValue.json))
                match executed with
                | .error _ => .throw .fault
                | .ok result =>
                    let durationMs ← ext .elapsed
                    -- best-effort: the tool has run
                    let _ ← (append sha256 (toolResultRecord sha256 identity task req result
                      durationMs) : Async pg Thrown AuditRecord).result
                    return mapSandboxResult result

/-- The proposal and its record are committed together. -/
def propose (p : ProposeRequest) : Async pg Thrown AgentProposal :=
  transaction do
    let id ← ext .random
    let createdAt ← ext .clock
    tx (.insertProposal id identity.id p.entityTable p.recordId p.workflow p.transition p.rationale
      createdAt)
    let _ ← appendInTransaction sha256 false (proposedRecord identity task p id)
    return {
      id
      agentId := identity.id
      entityTable := p.entityTable
      recordId := p.recordId
      workflow := p.workflow
      transition := p.transition
      rationale := p.rationale
      createdAt := createdAt.text }

def finish (outcome : AgentTaskOutcome) : Async pg Thrown Unit := do
  let _ ← append sha256 (finishedRecord identity task outcome)
  return ()

/-- The append of `contextFor`, which nothing waits for. -/
def taskStarted (taskName : String) : Async pg Thrown Unit := do
  let _ ← (append sha256 (startedRecord identity taskName) : Async pg Thrown AuditRecord).result
  return ()

end Calls

/-- What the context offers. -/
inductive Operation where
  | callTool (req : ToolCallRequest)
  | propose (p : ProposeRequest)
  | finish (outcome : AgentTaskOutcome)

@[reducible] def Operation.Reply : Operation → Type
  | .callTool _ => Except Thrown ToolCallResult
  | .propose _ => Except Thrown AgentProposal
  | .finish _ => Except Thrown Unit

/-- The code of a task: any use of the context, depending on what the operations return. -/
abbrev TaskCode : Type := Prog Operation.Reply Thrown Unit

/-- A task with the code that drives it. -/
structure TaskRun where
  identity : AgentIdentity
  task : AgentTaskDef
  code : TaskCode

section Runs

variable {pg : Postgres} (sha256 : String → String) (deps : CreateAgentRuntimeDeps)
  (identity : AgentIdentity) (task : AgentTaskDef)

def Operation.perform : (o : Operation) → Async pg Thrown o.Reply
  | .callTool req => (Agents.callTool sha256 deps identity task req : Async pg Thrown _).result
  | .propose p => (Agents.propose sha256 identity task p : Async pg Thrown _).result
  | .finish outcome => (Agents.finish sha256 identity task outcome : Async pg Thrown _).result

def runCode : TaskCode → Async pg Thrown Unit
  | .ret a => .ret a
  | .throw e => .throw e
  | .call o next => (o.perform sha256 deps identity task).bind fun r => runCode (next (some r))

end Runs

def TaskRun.run {pg : Postgres} (sha256 : String → String) (deps : CreateAgentRuntimeDeps)
    (run : TaskRun) : Async pg Thrown Unit :=
  runCode sha256 deps run.identity run.task run.code

/-- The context of `contextFor`, with the code that drives it; `none` for an unknown task. -/
def contextFor (spec : AppSpec) (taskName : String) (code : TaskCode) : Option TaskRun :=
  ((tasksByName spec).lookup taskName).map fun task =>
    { identity := identityOf spec taskName, task, code }

end OpenRupiv.Agents
