import OpenRupiv.Agents.Runtime

/-!
# The MCP client

`callTool` of `packages/mcp/src/client.ts`.  To connect to a server and to call a tool on it is one
dispatch.
-/

namespace OpenRupiv.Mcp

open Js Lib Spec Audit OpenRupiv.Runtime
open Agents (digestValue)

structure PolicySubject where
  id : String
  roles : List String

structure McpServerEntry where
  name : String
  allowedTools : List String

structure McpClientDeps where
  servers : List McpServerEntry
  /-- The message of an error of the driver. -/
  driverMessage : Text

structure CallToolOptions where
  server : String
  tool : String
  args : Object
  subject : PolicySubject
  actorType : ActorType

inductive McpErrorCode where
  | ERR_MCP_SERVER_UNKNOWN
  | ERR_MCP_TOOL_NOT_ALLOWED
  | ERR_MCP_POLICY_DENIED
  | ERR_MCP_PROTOCOL
  | ERR_MCP_UPSTREAM
  | ERR_MCP_AUDIT_UNAVAILABLE
  deriving DecidableEq

def McpErrorCode.text : McpErrorCode → String
  | .ERR_MCP_SERVER_UNKNOWN => "ERR_MCP_SERVER_UNKNOWN"
  | .ERR_MCP_TOOL_NOT_ALLOWED => "ERR_MCP_TOOL_NOT_ALLOWED"
  | .ERR_MCP_POLICY_DENIED => "ERR_MCP_POLICY_DENIED"
  | .ERR_MCP_PROTOCOL => "ERR_MCP_PROTOCOL"
  | .ERR_MCP_UPSTREAM => "ERR_MCP_UPSTREAM"
  | .ERR_MCP_AUDIT_UNAVAILABLE => "ERR_MCP_AUDIT_UNAVAILABLE"

inductive McpCallResult where
  | ok (content : Json)
  | failed (code : McpErrorCode) (message : Text)

def errMessage (driverMessage : Text) : Thrown → Text
  | .runtime error => error.message
  | .fault => driverMessage

/-- Why a call is not allowed. -/
structure Refusal where
  code : McpErrorCode
  message : Text
  policyReason : Option Text := none

/-- The texts of the text blocks, one a line. -/
def extractErrorText : Json → Option Text
  | .arr blocks =>
      let texts := blocks.filterMap fun
        | .obj members =>
            match members.lookup (ofString "type"), members.lookup (ofString "text") with
            | some (.scalar (.str type)), some (.scalar (.str text)) =>
                if type = ofString "text" then some text else none
            | _, _ => none
        | _ => none
      if texts.length > 0 then some ((ofString "\n").intercalate texts) else none
  | _ => none

def upstreamResult : Except Text UpstreamResult → McpCallResult
  | .error message => .failed .ERR_MCP_UPSTREAM (ofString "MCP tool call failed: " ++ message)
  | .ok (.notConnected true message) => .failed .ERR_MCP_PROTOCOL message
  | .ok (.notConnected false message) => .failed .ERR_MCP_UPSTREAM message
  | .ok (.isError content) =>
      .failed .ERR_MCP_UPSTREAM
        ((extractErrorText content).getD (ofString "MCP tool call returned an error result"))
  | .ok (.content content) => .ok content

namespace CallToolOptions

variable (o : CallToolOptions)

/-- `server/tool`. -/
def target : String := o.server ++ "/" ++ o.tool

def action : String := "mcp.tool:" ++ o.target

def policyInput : PolicyInput where
  subjectId := o.subject.id
  subjectRoles := o.subject.roles
  action := o.action
  resourceType := "mcp.tool"
  resourceId := some o.target
  allowedRoles := []

def unknownServer : Refusal where
  code := .ERR_MCP_SERVER_UNKNOWN
  message := ofString ("unknown MCP server \"" ++ o.server ++ "\"")

def notAllowed : Refusal where
  code := .ERR_MCP_TOOL_NOT_ALLOWED
  message := ofString ("tool \"" ++ o.tool ++ "\" is not on server \"" ++ o.server ++
    "\"'s allowedTools")

def denied (reason : Text) : Refusal where
  code := .ERR_MCP_POLICY_DENIED
  message := ofString ("policy denied " ++ o.action ++ ": ") ++ reason
  policyReason := some reason

/-- `mcp.tool_call`, for an allowed or a refused call. -/
def callRecord (sha256 : String → String) (refusal : Option Refusal) : AuditRecordInput where
  event := ofString "mcp.tool_call"
  actor := ofString o.subject.id
  actorType := o.actorType
  subject := some (ofString o.target)
  decision := some (if refusal.isNone then .allow else .deny)
  attributes := some (literal
    ([("server", ofText (ofString o.server)), ("tool", ofText (ofString o.tool)),
        ("action", ofText (ofString o.action))] ++
      (refusal.map fun r => ("code", ofText (ofString r.code.text))).toList ++
      ((refusal.bind (·.policyReason)).map fun reason => ("policyReason", ofText reason)).toList ++
      [("argsDigest", ofText (ofString (digestValue sha256 o.args.toValue.json).1)),
        ("argsBytes", ofNat (digestValue sha256 o.args.toValue.json).2)]))

/-- `mcp.tool_result`. -/
def resultRecord (sha256 : String → String) (result : McpCallResult) (durationMs : Nat) :
    AuditRecordInput :=
  let (outcome, code, digested) := match result with
    | .ok content => ("ok", none, content)
    | .failed code message =>
        ("error", some code, (literal [("code", ofText (ofString code.text)),
          ("message", ofText message)]).toValue.json)
  { event := ofString "mcp.tool_result"
    actor := ofString o.subject.id
    actorType := o.actorType
    subject := some (ofString o.target)
    decision := none
    attributes := some (literal
      ([("server", ofText (ofString o.server)), ("tool", ofText (ofString o.tool)),
          ("outcome", ofText (ofString outcome)), ("durationMs", ofNat durationMs)] ++
        (code.map fun code => ("code", ofText (ofString code.text))).toList ++
        [("contentDigest", ofText (ofString (digestValue sha256 digested).1)),
          ("contentBytes", ofNat (digestValue sha256 digested).2)])) }

/-- The allowlists and the policy: `none` when the call is allowed. -/
def refusal {pg : Postgres} (deps : McpClientDeps) : Async pg Thrown (Option Refusal) :=
  match (newMap (deps.servers.map fun s => (s.name, s))).lookup o.server with
  | none => return some o.unknownServer
  | some entry =>
      if o.tool ∉ entry.allowedTools then return some o.notAllowed
      else do
        let decision ← ext (.decide o.policyInput)
        if decision.allow then return none else return some (o.denied decision.reason)

/-- The call itself, once its record is written. -/
def invoke {pg : Postgres} (sha256 : String → String) : Async pg Thrown McpCallResult := do
  let answer ← ext (.dispatch (.upstream o.server o.tool o.args.toValue.json))
  let durationMs ← ext .elapsed
  let result := upstreamResult answer
  -- best-effort: the call has been made
  let _ ← (append sha256 (o.resultRecord sha256 result durationMs) :
    Async pg Thrown AuditRecord).result
  return result

end CallToolOptions

def callTool {pg : Postgres} (sha256 : String → String) (deps : McpClientDeps)
    (o : CallToolOptions) : Async pg Thrown McpCallResult := do
  let refusal ← o.refusal deps
  let appended ← (append sha256 (o.callRecord sha256 refusal) : Async pg Thrown AuditRecord).result
  match appended, refusal with
  | .error err, _ =>
      return .failed .ERR_MCP_AUDIT_UNAVAILABLE
        (ofString "audit append failed before mcp.tool_call: " ++ errMessage deps.driverMessage err)
  | .ok _, some refusal => return .failed refusal.code refusal.message
  | .ok _, none => o.invoke sha256

end OpenRupiv.Mcp
