import OpenRupiv.Mcp.Client

/-!
# The MCP server

`handleToolsCall` of `packages/mcp/src/server.ts`, for a subject that was authenticated.
-/

namespace OpenRupiv.Mcp

open Js Lib Spec Audit OpenRupiv.Runtime
open Agents (digestValue)

structure ExposedCapability where
  name : String
  allowedRoles : List String

/-- What a `tools/call` is answered with. -/
inductive ToolsCallReply where
  | result (text : Text) (structuredContent : Option Json) (isError : Bool)
  | error (status : Nat) (code : Int) (message : Text) (data : Option McpErrorCode := none)

/-- `typeof v === "object"` and truthy. -/
def isObject : Json → Bool
  | .scalar _ => false
  | _ => true

/-- `p[k]` of an object, and of what is not one `undefined`. -/
def property (p : Json) (k : String) : Option Json :=
  match p with
  | .obj members => members.lookup (ofString k)
  | _ => none

/-- `typeof v === "string" ? v : undefined`. -/
def textOf : Option Json → Option Text
  | some (.scalar (.str s)) => some s
  | _ => none

theorem textOf_eq_some {v : Option Json} {s : Text} :
    textOf v = some s ↔ v = some (.scalar (.str s)) := by
  constructor
  · intro h
    unfold textOf at h
    split at h
    · rw [Option.some.inj h]
    · exact absurd h (by simp)
  · intro h
    rw [h, textOf]

def toCallToolResult (output : Json) : ToolsCallReply :=
  let text := match output with
    | .scalar (.str s) => s
    | v => ofString (String.ofList (stringify v))
  let structured := match output with
    | .obj _ => some output
    | _ => none
  .result text structured false

def auditUnavailable : ToolsCallReply :=
  .error 500 (-32000) (ofString "Internal error: audit unavailable") (some .ERR_MCP_AUDIT_UNAVAILABLE)

/-- `String(name)`. -/
def nameText : Option Text → Text
  | none => ofString "undefined"
  | some name => name

section Serve

variable (sha256 : String → String) (subject : PolicySubject) (cap : ExposedCapability) (args : Json)

def serveInput : PolicyInput where
  subjectId := subject.id
  subjectRoles := subject.roles
  action := "mcp.serve:" ++ cap.name
  resourceType := "mcp.capability"
  resourceId := some cap.name
  allowedRoles := cap.allowedRoles

def unknownRecord (name : Option Text) : AuditRecordInput where
  event := ofString "mcp.serve_call"
  actor := ofString subject.id
  actorType := .human
  subject := some (name.getD (ofString "unknown"))
  decision := some .deny
  attributes := some (literal
    [("capability", ofText (name.getD (ofString "unknown"))),
      ("code", ofText (ofString "capability_unknown")), ("channel", ofText (ofString "mcp"))])

def serveRecord (decision : PolicyDecision) : AuditRecordInput where
  event := ofString "mcp.serve_call"
  actor := ofString subject.id
  actorType := .human
  subject := some (ofString cap.name)
  decision := some (if decision.allow then .allow else .deny)
  attributes := some (literal
    ([("capability", ofText (ofString cap.name)),
        ("action", ofText (ofString ("mcp.serve:" ++ cap.name))),
        ("channel", ofText (ofString "mcp"))] ++
      (if decision.allow then [] else [("reason", ofText decision.reason)]) ++
      [("argsDigest", ofText (ofString (digestValue sha256 args).1)),
        ("argsBytes", ofNat (digestValue sha256 args).2)]))

def serveResultRecord (answer : Except Text Json) (durationMs : Nat) : AuditRecordInput :=
  let (outcome, digested) := match answer with
    | .ok output => ("ok", output)
    | .error message => ("error", (literal [("message", ofText message)]).toValue.json)
  { event := ofString "mcp.serve_result"
    actor := ofString subject.id
    actorType := .human
    subject := some (ofString cap.name)
    decision := none
    attributes := some (literal
      [("capability", ofText (ofString cap.name)), ("channel", ofText (ofString "mcp")),
        ("outcome", ofText (ofString outcome)), ("durationMs", ofNat durationMs),
        ("contentDigest", ofText (ofString (digestValue sha256 digested).1)),
        ("contentBytes", ofNat (digestValue sha256 digested).2)]) }

variable {pg : Postgres}

/-- The handler of the capability, once the record of the call is written. -/
def runHandler : Async pg Thrown ToolsCallReply := do
  let answer ← ext (.dispatch (.capability cap.name args))
  let durationMs ← ext .elapsed
  -- best-effort: the handler has run
  let _ ← (append sha256 (serveResultRecord sha256 subject cap answer durationMs) :
    Async pg Thrown AuditRecord).result
  match answer with
  | .ok output => return toCallToolResult output
  | .error message => return .result message none true

def serveCapability : Async pg Thrown ToolsCallReply := do
  let decision ← ext (.decide (serveInput subject cap))
  let audited ← (append sha256 (serveRecord sha256 subject cap args decision) :
    Async pg Thrown AuditRecord).result
  match audited with
  | .error _ => return auditUnavailable
  | .ok _ =>
      if decision.allow = false then
        return .error 200 (-32001) (ofString "Forbidden: " ++ decision.reason)
          (some .ERR_MCP_POLICY_DENIED)
      else runHandler sha256 subject cap args

end Serve

def handleToolsCall {pg : Postgres} (sha256 : String → String)
    (capabilities : List ExposedCapability) (subject : PolicySubject) (params : Json) :
    Async pg Thrown ToolsCallReply :=
  let name := textOf (property params "name")
  let args := match property params "arguments" with
    | some v => if isObject v then v else Object.empty.toValue.json
    | none => Object.empty.toValue.json
  let capsByName := newMap (capabilities.map fun c => (c.name, c))
  let cap := (capsByName.find? fun e => name = some (ofString e.1) ∧ e.1 ≠ "").map (·.2)
  match cap with
  | some cap => serveCapability sha256 subject cap args
  | none => do
      let audited ← (append sha256 (unknownRecord subject name) :
        Async pg Thrown AuditRecord).result
      match audited with
      | .error _ => return auditUnavailable
      | .ok _ => return .error 200 (-32602) (ofString "Unknown tool: " ++ nameText name)

end OpenRupiv.Mcp
