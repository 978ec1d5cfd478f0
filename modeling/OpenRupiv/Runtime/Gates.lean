import OpenRupiv.Runtime.A2a
import OpenRupiv.Runtime.Atomicity
import OpenRupiv.Runtime.Interference

/-!
# The four gates

A tool of an agent, a tool of an upstream server, a capability that is served and the procedure of a
skill are dispatched to after an allowlist, the policy engine and the audit log have agreed, in this
order.
-/

namespace OpenRupiv.Runtime

open Js Lib Spec Audit

/-- A call that may dispatch to something outside. -/
inductive GateCall where
  | tool (deps : Agents.CreateAgentRuntimeDeps) (identity : Agents.AgentIdentity)
      (task : AgentTaskDef) (req : Agents.ToolCallRequest)
  | upstream (deps : Mcp.McpClientDeps) (o : Mcp.CallToolOptions)
  | capability (capabilities : List Mcp.ExposedCapability) (subject : Mcp.PolicySubject)
      (params : Json)
  | skill (deps : A2aDeps) (client : A2aClientEntry) (params : Json)

namespace GateCall

def run {pg : Postgres} (sha256 : String → String) : GateCall → Async pg Thrown Unit
  | .tool deps identity task req => do
      let _ ← Agents.callTool sha256 deps identity task req
      return ()
  | .upstream deps o => do
      let _ ← Mcp.callTool sha256 deps o
      return ()
  | .capability capabilities subject params => do
      let _ ← Mcp.handleToolsCall sha256 capabilities subject params
      return ()
  | .skill deps client params => do
      let _ ← handleSendMessage sha256 deps client params
      return ()

/-- Who calls. -/
def actor : GateCall → String
  | .tool _ identity _ _ => identity.id
  | .upstream _ o => o.subject.id
  | .capability _ subject _ => subject.id
  | .skill _ client _ => client.identity

/-- The target is what the call asks for, and it is on the allowlist. -/
def Lists : GateCall → Dispatch → Prop
  | .tool _ _ task req, .sandbox name _ _ _ => name = req.tool ∧ name ∈ task.tools.getD []
  | .upstream deps o, .upstream server name _ =>
      server = o.server ∧ name = o.tool ∧
        ∃ entry ∈ deps.servers, entry.name = server ∧ name ∈ entry.allowedTools
  | .capability capabilities _ params, .capability name _ =>
      Mcp.property params "name" = some (.scalar (.str (ofString name))) ∧
        ∃ cap ∈ capabilities, cap.name = name
  | .skill _ client params, .procedure name _ =>
      Mcp.property params "skill" = some (.scalar (.str (ofString name))) ∧
        name ∈ client.allowedSkills
  | _, _ => False

end GateCall

namespace Dispatch

/-- The event that is recorded before a dispatch. -/
def event : Dispatch → String
  | .sandbox _ _ _ _ => "agent.tool_call"
  | .upstream _ _ _ => "mcp.tool_call"
  | .capability _ _ => "mcp.serve_call"
  | .procedure _ _ => "a2a.call"

def NamedBy (row : AuditRow) : Dispatch → Prop
  | .sandbox tool _ _ _ => row.attribute "tool" = some (ofString tool)
  | .upstream server tool _ =>
      row.attribute "server" = some (ofString server) ∧ row.attribute "tool" = some (ofString tool)
  | .capability name _ => row.subject = some (ofString name)
  | .procedure skill _ => row.subject = some (ofString skill)

end Dispatch

/-- A record that permits the actor to dispatch to the target. -/
structure Permits (row : AuditRow) (actor : String) (target : Dispatch) : Prop where
  event : row.event = ofString target.event
  actor : row.actor = ofString actor
  decision : row.decision = some .allow
  named : target.NamedBy row

inductive GatePhase where
  | ready
  | answered (allow : Bool)
  /-- The record of the call is written. -/
  | permitted (row : AuditRow)
  /-- There is no dispatch any more. -/
  | after
  | stopped

def GatePhase.fail : GatePhase → GatePhase
  | .after => .after
  | _ => .stopped

/-- Services without a part in the gate. -/
def Ext.aside : Ext → Bool
  | .clock | .log _ | .random | .elapsed => true
  | _ => false

/-- A command that makes a record or the row of a task visible. -/
inductive Records {pg : Postgres} : Cmd (store pg) → Write → Prop where
  | audit {row} : Records .commit (.insertAudit row)
  | task {id clientId skill status result task} :
      Records (.query (.insertTask id clientId skill status result)) (.insertTask task)

/-- The steps of a call at its gate. -/
inductive GateMoves (pg : Postgres) (call : GateCall) : GatePhase → Contents →
    (k : Cmd (store pg)) → Option k.Reply → List Write → GatePhase → Prop where
  | failed {φ κ k} : GateMoves pg call φ κ k none [] φ.fail
  | unrolled {φ κ} : GateMoves pg call φ κ .rollback none [] φ
  | quiet {φ κ k} (r : k.Reply) : k.quiet = true → GateMoves pg call φ κ k (some r) [] φ
  | aside {φ κ x} (r : x.Answer) : x.aside = true → GateMoves pg call φ κ (.ext x) (some r) [] φ
  | asked {κ input decision} :
      GateMoves pg call .ready κ (.ext (.decide input)) (some decision) [] (.answered decision.allow)
  /-- The call is not on the allowlist. -/
  | refused {κ row} : GateMoves pg call .ready κ .commit (some ()) [.insertAudit row] .stopped
  | denied {κ row} :
      GateMoves pg call (.answered false) κ .commit (some ()) [.insertAudit row] .stopped
  | permitted {κ row} :
      GateMoves pg call (.answered true) κ .commit (some ()) [.insertAudit row] (.permitted row)
  | dispatched {κ row target r} : Permits row call.actor target → call.Lists target →
      GateMoves pg call (.permitted row) κ (.ext (.dispatch target)) (some r) [] .after
  /-- There is nothing to dispatch to. -/
  | skipped {κ k row w} (r : k.Reply) : Records k w →
      GateMoves pg call (.permitted row) κ k (some r) [w] .after
  | recorded {κ k w} (r : k.Reply) : Records k w → GateMoves pg call .after κ k (some r) [w] .after

def gateProtocol (pg : Postgres) {Client : Type} (calls : Client → GateCall) :
    Protocol (store pg) Client GatePhase where
  Step c := GateMoves pg (calls c)
  fail := GatePhase.fail
  silent := Ext.aside
  failed := .failed
  unrolled := .unrolled
  passed := .quiet
  served r h := .aside r h

/-- The database with the clients that are about to make their calls. -/
def gates (pg : Postgres) {Client : Type} (sha256 : String → String) (calls : Client → GateCall)
    (contents : Contents) : World (store pg) Client Thrown Unit :=
  .start (fun c => (calls c).run sha256) contents

variable {pg : Postgres} {sha256 : String → String} {Client : Type} {calls : Client → GateCall}
  {c : Client} {φ : GatePhase} {κ : Contents}

/-- Any end will do. -/
abbrev SafeGate {α : Type} (pg : Postgres) (calls : Client → GateCall) (c : Client)
    (p : Async pg Thrown α) (φ : GatePhase) (κ : Contents) : Prop :=
  Safe (protection pg) (gateProtocol pg calls) c (fun _ _ _ _ => True) p φ .closed κ

theorem gateProtocol_allowsAppends : AllowsAppends (gateProtocol pg calls) := ⟨rfl, fun _ _ => rfl⟩

section Rules

variable {α : Type} {Q : Except Thrown α → GatePhase → Local (store pg) → Contents → Prop}

theorem safe_appended {input : AuditRecordInput} {f : Except Thrown AuditRecord → Async pg Thrown α}
    (hcommit : ∀ κ' record row, Shows row input → ∃ φ',
      GateMoves pg (calls c) φ κ' .commit (some ()) [.insertAudit row] φ' ∧
        ∀ κ'', Safe (protection pg) (gateProtocol pg calls) c Q (f (.ok record)) φ' .closed κ'')
    (hfail : ∀ κ', Safe (protection pg) (gateProtocol pg calls) c Q (f (.error .fault)) φ.fail
      .closed κ') :
    Safe (protection pg) (gateProtocol pg calls) c Q
      ((append sha256 input : Async pg Thrown AuditRecord).result >>= f) φ .closed κ := by
  rw [safe_bind, safe_result]
  have happend := @safe_append pg Thrown _ Client GatePhase (gateProtocol pg calls) c φ κ sha256 input
    gateProtocol_allowsAppends
    (fun r φ' => ∀ κ'', Safe (protection pg) (gateProtocol pg calls) c Q (f r) φ' .closed κ'') (by
      intro κ' record row happends
      obtain ⟨φ', hstep, hnext⟩ := hcommit κ' record row happends.shows
      exact ⟨φ', hstep, hnext⟩) hfail
  apply happend.mono
  intro r φ' σ κ' h
  obtain ⟨rfl, hnext⟩ := h
  exact hnext κ'

theorem safe_aside {x : Ext} {f : x.Answer → Async pg Thrown α} (hx : x.aside = true)
    (hf : ∀ r κ', Safe (protection pg) (gateProtocol pg calls) c Q (f r) φ .closed κ') :
    Safe (protection pg) (gateProtocol pg calls) c Q (ext x >>= f) φ .closed κ := by
  rw [safe_bind]
  apply safe_ext (.inr rfl)
  · intro κ' _ r _ _
    exact ⟨φ, .aside r hx, hf r κ'⟩
  · intro κ' choice hanswer
    cases x <;> exact absurd hanswer (by simp_all [Ext.aside])

theorem safe_asked {input : PolicyInput} {f : PolicyDecision → Async pg Thrown α}
    (hf : ∀ decision κ', Safe (protection pg) (gateProtocol pg calls) c Q (f decision)
      (.answered decision.allow) .closed κ')
    (hfail : ∀ κ', Q (.error .fault) .stopped .closed κ') :
    Safe (protection pg) (gateProtocol pg calls) c Q (ext (.decide input) >>= f) .ready .closed κ := by
  rw [safe_bind]
  apply safe_ext (.inr rfl)
  · intro κ' _ decision _ _
    exact ⟨_, .asked, hf decision κ'⟩
  · intro κ' _ _
    exact hfail κ'

theorem safe_dispatched {row : AuditRow} {target : Dispatch}
    {f : Except Text target.Answer → Async pg Thrown α}
    (hrow : Permits row (calls c).actor target) (hlists : (calls c).Lists target)
    (hf : ∀ r κ', Safe (protection pg) (gateProtocol pg calls) c Q (f r) .after .closed κ') :
    Safe (protection pg) (gateProtocol pg calls) c Q (ext (.dispatch target) >>= f) (.permitted row)
      .closed κ := by
  rw [safe_bind]
  apply safe_ext (.inr rfl)
  · intro κ' _ r _ _
    exact ⟨_, .dispatched hrow hlists, hf r κ'⟩
  · intro _ _ hanswer
    exact absurd hanswer (by simp)

theorem safe_recorded {input : AuditRecordInput} {f : Except Thrown AuditRecord → Async pg Thrown α}
    (hf : ∀ r κ', Safe (protection pg) (gateProtocol pg calls) c Q (f r) .after .closed κ') :
    Safe (protection pg) (gateProtocol pg calls) c Q
      ((append sha256 input : Async pg Thrown AuditRecord).result >>= f) .after .closed κ := by
  apply safe_appended
  · intro κ' record row _
    exact ⟨.after, .recorded _ .audit, hf _⟩
  · exact hf _

theorem safe_auditBestEffort {input : AuditRecordInput} {f : Bool → Async pg Thrown α}
    (hcommit : ∀ κ' row, Shows row input → ∃ φ',
      GateMoves pg (calls c) φ κ' .commit (some ()) [.insertAudit row] φ' ∧
        ∀ κ'', Safe (protection pg) (gateProtocol pg calls) c Q (f true) φ' .closed κ'')
    (hfail : ∀ κ', Safe (protection pg) (gateProtocol pg calls) c Q (f false) φ.fail .closed κ') :
    Safe (protection pg) (gateProtocol pg calls) c Q (auditBestEffort sha256 input >>= f) φ .closed
      κ := by
  rw [safe_bind, auditBestEffort]
  apply safe_appended
  · intro κ' record row hshows
    obtain ⟨φ', hstep, hnext⟩ := hcommit κ' row hshows
    exact ⟨φ', hstep, hnext⟩
  · intro κ'
    apply safe_aside rfl
    intro _ κ''
    exact hfail κ''

end Rules

section Calls

theorem permits_sandbox {identity : Agents.AgentIdentity} {task : AgentTaskDef}
    {req : Agents.ToolCallRequest} {decision : PolicyDecision} {row : AuditRow}
    (h : Shows row (Agents.toolCallRecord sha256 identity task req decision))
    (hallow : decision.allow = true) {name entrypoint : String} {workspaceDir : Text} {input : Json}
    (hname : name = req.tool) : Permits row identity.id (.sandbox name entrypoint workspaceDir input) where
  event := h.event _ rfl
  actor := h.actor _ rfl
  decision := by
    rw [h.decision]
    simp [Agents.toolCallRecord, Agents.agentRecord, hallow]
  named := by
    rw [hname]
    exact h.attribute rfl (by simp) (List.mem_cons_of_mem _ List.mem_cons_self) (by decide)
      (by decide)

theorem safe_tool {deps : Agents.CreateAgentRuntimeDeps} {identity : Agents.AgentIdentity}
    {task : AgentTaskDef} {req : Agents.ToolCallRequest}
    (hcall : calls c = .tool deps identity task req) :
    SafeGate pg calls c (Agents.callTool sha256 deps identity task req) .ready κ := by
  unfold Agents.callTool
  split
  · trivial
  rename_i hlisted
  split
  · trivial
  rename_i tool htool
  split
  · trivial
  apply safe_asked _ fun _ => trivial
  intro decision κ₁
  apply safe_appended
  case hfail =>
    intro _
    trivial
  intro κ₂ record row hshows
  cases hallow : decision.allow with
  | false =>
    refine ⟨.stopped, .denied, ?_⟩
    intro κ₃
    trivial
  | true =>
    refine ⟨.permitted row, .permitted, ?_⟩
    intro κ₃
    dsimp only
    rw [if_neg (by simp)]
    apply safe_aside rfl
    intro id κ₄
    obtain ⟨hname, -⟩ := lookup_newMap_named htool
    apply safe_dispatched
    · rw [hcall]
      exact permits_sandbox hshows hallow hname
    · rw [hcall]
      exact ⟨hname, by simpa [hname] using hlisted⟩
    intro executed κ₅
    cases executed with
    | error message => trivial
    | ok result =>
      apply safe_aside rfl
      intro durationMs κ₆
      apply safe_recorded
      intro _ _
      trivial

theorem permits_upstream {o : Mcp.CallToolOptions} {row : AuditRow}
    (h : Shows row (o.callRecord sha256 none)) :
    Permits row o.subject.id (.upstream o.server o.tool o.args.toValue.json) where
  event := h.event _ rfl
  actor := h.actor _ rfl
  decision := h.decision
  named :=
    ⟨h.attribute rfl (by simp) List.mem_cons_self (by decide) (by decide),
      h.attribute rfl (by simp) (List.mem_cons_of_mem _ List.mem_cons_self) (by decide) (by decide)⟩

private theorem safe_refused {deps : Mcp.McpClientDeps} {o : Mcp.CallToolOptions}
    {refusal : Mcp.Refusal} (hφ : φ = .ready ∨ φ = .answered false) :
    SafeGate pg calls c (do
      let appended ← (append sha256 (o.callRecord sha256 (some refusal)) :
        Async pg Thrown AuditRecord).result
      match appended, some refusal with
      | .error err, _ =>
          return .failed .ERR_MCP_AUDIT_UNAVAILABLE (ofString
            "audit append failed before mcp.tool_call: " ++ Mcp.errMessage deps.driverMessage err)
      | .ok _, some refusal => return .failed refusal.code refusal.message
      | .ok _, none => o.invoke sha256) φ κ := by
  apply safe_appended
  case hfail =>
    intro _
    trivial
  intro κ' record row _
  rcases hφ with rfl | rfl
  · exact ⟨.stopped, .refused, fun _ => trivial⟩
  · exact ⟨.stopped, .denied, fun _ => trivial⟩

theorem safe_upstream {deps : Mcp.McpClientDeps} {o : Mcp.CallToolOptions}
    (hcall : calls c = .upstream deps o) :
    SafeGate pg calls c (Mcp.callTool sha256 deps o) .ready κ := by
  rw [SafeGate, Mcp.callTool, safe_bind, Mcp.CallToolOptions.refusal]
  split
  · exact safe_refused (.inl rfl)
  rename_i entry hentry
  split
  · exact safe_refused (.inl rfl)
  rename_i hlisted
  apply safe_asked _ fun _ => trivial
  intro decision κ₁
  cases hallow : decision.allow with
  | false => exact safe_refused (.inr rfl)
  | true =>
    show SafeGate pg calls c _ _ _
    apply safe_appended
    case hfail =>
      intro _
      trivial
    intro κ₂ record row hshows
    refine ⟨.permitted row, .permitted, ?_⟩
    intro κ₃
    dsimp only
    unfold Mcp.CallToolOptions.invoke
    obtain ⟨hname, hentry⟩ := lookup_newMap_named hentry
    apply safe_dispatched
    · rw [hcall]
      exact permits_upstream hshows
    · rw [hcall]
      exact ⟨rfl, rfl, entry, hentry, hname, by simpa using hlisted⟩
    intro answer κ₄
    apply safe_aside rfl
    intro durationMs κ₅
    apply safe_recorded
    intro _ _
    trivial

theorem permits_capability {subject : Mcp.PolicySubject} {cap : Mcp.ExposedCapability} {args : Json}
    {decision : PolicyDecision} {row : AuditRow}
    (h : Shows row (Mcp.serveRecord sha256 subject cap args decision))
    (hallow : decision.allow = true) : Permits row subject.id (.capability cap.name args) where
  event := h.event _ rfl
  actor := h.actor _ rfl
  decision := by
    rw [h.decision]
    simp [Mcp.serveRecord, hallow]
  named := h.subject _ rfl

theorem safe_capability {capabilities : List Mcp.ExposedCapability} {subject : Mcp.PolicySubject}
    {params : Json} (hcall : calls c = .capability capabilities subject params) :
    SafeGate pg calls c (Mcp.handleToolsCall sha256 capabilities subject params) .ready κ := by
  unfold Mcp.handleToolsCall
  dsimp only
  split
  · rename_i cap hcap
    obtain ⟨e, he, rfl⟩ := Option.map_eq_some_iff.mp hcap
    obtain ⟨cap, hmem, rfl⟩ := List.mem_map.mp (mem_newMap (List.mem_of_find?_eq_some he))
    have hname := List.find?_some he
    simp only [decide_eq_true_eq] at hname
    unfold Mcp.serveCapability
    apply safe_asked _ fun _ => trivial
    intro decision κ₁
    apply safe_appended
    case hfail =>
      intro _
      trivial
    intro κ₂ record row hshows
    cases hallow : decision.allow with
    | false => exact ⟨.stopped, .denied, fun _ => trivial⟩
    | true =>
      refine ⟨.permitted row, .permitted, ?_⟩
      intro κ₃
      dsimp only
      rw [if_neg (by simp)]
      unfold Mcp.runHandler
      apply safe_dispatched
      · rw [hcall]
        exact permits_capability hshows hallow
      · rw [hcall]
        exact ⟨Mcp.textOf_eq_some.mp hname.1, cap, hmem, rfl⟩
      intro answer κ₄
      apply safe_aside rfl
      intro durationMs κ₅
      apply safe_recorded
      intro _ _
      cases answer <;> trivial
  · apply safe_appended
    case hfail =>
      intro _
      trivial
    intro κ₁ record row _
    exact ⟨.stopped, .refused, fun _ => trivial⟩

theorem permits_procedure {client : A2aClientEntry} {skill : String} {decision : PolicyDecision}
    {row : AuditRow} (h : Shows row (skillRecord client skill decision))
    (hallow : decision.allow = true) {input : Json} :
    Permits row client.identity (.procedure skill input) where
  event := h.event _ rfl
  actor := h.actor _ rfl
  decision := by
    rw [h.decision]
    simp [skillRecord, hallow]
  named := h.subject _ rfl

private theorem safe_finish {α : Type} {identity : Agents.AgentIdentity} {task : AgentTaskDef}
    {outcome : AgentTaskOutcome} {f : Unit → Async pg Thrown α}
    {Q : Except Thrown α → GatePhase → Local (store pg) → Contents → Prop}
    (hf : ∀ κ', Safe (protection pg) (gateProtocol pg calls) c Q (f ()) .after .closed κ')
    (hfail : ∀ κ', Q (.error .fault) .after .closed κ') :
    Safe (protection pg) (gateProtocol pg calls) c Q
      (Agents.finish sha256 identity task outcome >>= f) .after .closed κ := by
  rw [safe_bind, Agents.finish, safe_bind]
  have happend := @safe_append pg Thrown _ Client GatePhase (gateProtocol pg calls) c .after κ sha256
    (Agents.finishedRecord identity task outcome) gateProtocol_allowsAppends
    (fun r φ' => φ' = .after ∧ ∀ e, r = .error e → e = .fault)
    (fun κ' _ row _ => ⟨.after, .recorded (k := .commit) () .audit, rfl, by simp⟩) ⟨rfl, by simp [fault]⟩
  apply happend.mono
  intro r φ' σ κ' h
  obtain ⟨rfl, rfl, hr⟩ := h
  cases r with
  | ok _ => exact hf κ'
  | error e =>
    rw [hr e rfl]
    exact hfail κ'

private theorem safe_runProcedure {α : Type} {deps : A2aDeps} {client : A2aClientEntry}
    {skill : String} {task : AgentTaskDef} {input : Json} {row : AuditRow}
    {f : TaskStatus × Value → Async pg Thrown α}
    {Q : Except Thrown α → GatePhase → Local (store pg) → Contents → Prop}
    (hrow : Permits row (calls c).actor (.procedure skill input))
    (hlists : (calls c).Lists (.procedure skill input))
    (hf : ∀ r κ', Safe (protection pg) (gateProtocol pg calls) c Q (f r) .after .closed κ')
    (hfail : ∀ κ', Q (.error .fault) .after .closed κ') :
    Safe (protection pg) (gateProtocol pg calls) c Q
      (runProcedure sha256 deps client skill task input >>= f) (.permitted row) .closed κ := by
  rw [safe_bind, runProcedure]
  apply safe_dispatched hrow hlists
  intro answer κ₁
  cases answer with
  | error message =>
    apply safe_aside rfl
    intro _ κ₂
    apply safe_finish
    · intro κ₃
      exact hf _ κ₃
    · exact hfail
  | ok outcome =>
    apply safe_finish
    · intro κ₂
      exact hf _ κ₂
    · exact hfail

private theorem safe_stored {client : A2aClientEntry} {skill : String} {taskId : Uuid}
    {status : TaskStatus} {result : Value} (hφ : (∃ row, φ = .permitted row) ∨ φ = .after) :
    SafeGate pg calls c (do
      query (.insertTask taskId client.clientId skill status result)
      let _ ← auditBestEffort sha256 (a2aResultRecord client skill taskId status)
      return SendMessageReply.result taskId status result.json) φ κ := by
  rw [SafeGate, safe_bind]
  apply safe_query
  case hfail =>
    intro _
    trivial
  intro κ₁ choice r writes hexec
  obtain ⟨task, rfl⟩ : ∃ task, writes = [.insertTask task] := by
    simp only [Stmt.exec, Option.bind_eq_bind, Option.bind_eq_some_iff, Option.pure_def,
      Option.some.injEq, Prod.mk.injEq] at hexec
    obtain ⟨uuid, -, stored, -, -, -, -, -, -, rfl⟩ := hexec
    exact ⟨_, rfl⟩
  refine ⟨?_, .after, ?_, ?_⟩
  · intro w hw l htouch
    rw [List.mem_singleton.mp hw] at htouch
    exact False.elim htouch
  · rcases hφ with ⟨row, rfl⟩ | rfl
    · exact .skipped r .task
    · exact .recorded r .task
  · rw [continues_ok]
    apply safe_auditBestEffort
    · intro κ₂ row _
      exact ⟨.after, .recorded (k := .commit) () .audit, fun _ => trivial⟩
    · intro _
      trivial

theorem safe_skill {deps : A2aDeps} {client : A2aClientEntry} {params : Json}
    (hcall : calls c = .skill deps client params) :
    SafeGate pg calls c (handleSendMessage sha256 deps client params) .ready κ := by
  unfold handleSendMessage
  dsimp only
  split
  · trivial
  rename_i dataPart _
  split
  · rename_i skill hskill
    have hallowed := List.mem_of_find?_eq_some hskill
    have hname := List.find?_some hskill
    simp only [decide_eq_true_eq] at hname
    unfold callSkill
    apply safe_asked _ fun _ => trivial
    intro decision κ₁
    apply safe_auditBestEffort
    case hfail =>
      intro _
      trivial
    intro κ₂ row hshows
    cases hallow : decision.allow with
    | false => exact ⟨.stopped, .denied, fun _ => trivial⟩
    | true =>
      refine ⟨.permitted row, .permitted, ?_⟩
      intro κ₃
      rw [if_neg (by simp), if_neg (by simp), runTask]
      apply safe_aside rfl
      intro taskId κ₄
      unfold runSkill
      split
      · exact safe_stored (.inl ⟨row, rfl⟩)
      split
      · exact safe_stored (.inl ⟨row, rfl⟩)
      · apply safe_runProcedure
        · rw [hcall]
          exact permits_procedure hshows hallow
        · rw [hcall]
          exact ⟨Mcp.textOf_eq_some.mp hname.1, hallowed⟩
        · intro r κ₅
          exact safe_stored (.inr rfl)
        · intro _
          trivial
  · apply safe_auditBestEffort
    case hfail =>
      intro _
      trivial
    intro κ₁ row _
    exact ⟨.stopped, .refused, fun _ => trivial⟩

end Calls

section Runs

variable [DecidableEq Client] {init contents : Contents} {history : History pg Client}
  {phases : Client → GatePhase}

omit [DecidableEq Client] in
theorem safe_run (c : Client) : SafeGate pg calls c ((calls c).run sha256) .ready init := by
  unfold GateCall.run
  have hend : ∀ {α : Type} {p : Async pg Thrown α}, SafeGate pg calls c p .ready init →
      SafeGate pg calls c (p >>= fun _ => pure ()) .ready init := by
    intro α p h
    rw [SafeGate, safe_bind]
    apply h.mono
    intro r φ σ κ _
    cases r <;> trivial
  split
  · rename_i hcall
    exact hend (safe_tool hcall)
  · rename_i hcall
    exact hend (safe_upstream hcall)
  · rename_i hcall
    exact hend (safe_capability hcall)
  · rename_i hcall
    exact hend (safe_skill hcall)

/-- The call dispatched to something. -/
def Dispatched (history : History pg Client) (c : Client) : Prop :=
  ∃ e ∈ history, e.client = c ∧ e.reply.isSome = true ∧ ∃ target, e.cmd = .ext (.dispatch target)

/-- The policy engine denied the call. -/
def Denied (history : History pg Client) (c : Client) : Prop :=
  ∃ input decision, (⟨c, .ext (.decide input), some decision, []⟩ : Label (store pg) Client) ∈ history ∧
    decision.allow = false

/-- The call has not failed and may still dispatch. -/
def GatePhase.isOpen : GatePhase → Bool
  | .after | .stopped => false
  | _ => true

/-- The call will not dispatch. -/
def GatePhase.isShut : GatePhase → Bool
  | .answered false | .stopped => true
  | _ => false

section Step

variable {call : GateCall} {φ' : GatePhase} {k : Cmd (store pg)} {r : Option k.Reply}
  {ws : List Write}

omit [DecidableEq Client]

theorem GateMoves.of_dispatch {target : Dispatch} {r : Option (Except Text target.Answer)}
    (h : GateMoves pg call φ κ (.ext (.dispatch target)) r ws φ') (hr : r.isSome = true) :
    φ' = .after ∧ call.Lists target ∧ ∃ row, φ = .permitted row ∧ Permits row call.actor target := by
  cases h with
  | failed => exact absurd hr (by simp)
  | quiet _ hk => exact absurd hk (by simp [Cmd.quiet])
  | aside _ hx => exact absurd hx (by simp [Ext.aside])
  | dispatched hrow hlists => exact ⟨rfl, hlists, _, rfl, hrow⟩
  | skipped _ hw | recorded _ hw => cases hw

theorem GateMoves.after (h : GateMoves pg call .after κ k r ws φ') : φ' = .after := by
  cases h <;> rfl

theorem GateMoves.shut (h : GateMoves pg call φ κ k r ws φ') (hφ : φ.isShut = true) :
    φ'.isShut = true := by
  cases h with
  | failed => cases φ <;> simp_all [GatePhase.isShut, GatePhase.fail]
  | _ => simp_all [GatePhase.isShut]

theorem GateMoves.of_denied {input : PolicyInput} {decision : PolicyDecision}
    (h : GateMoves pg call φ κ (.ext (.decide input)) (some decision) ws φ')
    (hdenied : decision.allow = false) : φ'.isShut = true := by
  cases h with
  | quiet _ hk => exact absurd hk (by simp [Cmd.quiet])
  | aside _ hx => exact absurd hx (by simp [Ext.aside])
  | asked => simp [hdenied, GatePhase.isShut]
  | skipped _ hw | recorded _ hw => cases hw

theorem GateMoves.permits (h : GateMoves pg call φ κ k r ws φ') {row : AuditRow}
    (hφ' : φ' = .permitted row) : φ = .permitted row ∨ .insertAudit row ∈ ws := by
  cases h with
  | failed => cases φ <;> exact absurd hφ' (by simp [GatePhase.fail])
  | permitted =>
    cases hφ'
    exact .inr (List.mem_singleton_self _)
  | _ => simp_all

theorem GateMoves.open (h : GateMoves pg call φ κ k r ws φ') (hφ' : φ'.isOpen = true) :
    φ.isOpen = true ∧ (k ≠ .rollback → r.isSome = true) := by
  cases h with
  | failed => cases φ <;> exact absurd hφ' (by simp [GatePhase.fail, GatePhase.isOpen])
  | unrolled => exact ⟨hφ', fun hk => absurd rfl hk⟩
  | _ => simp_all [GatePhase.isOpen]

end Step

/-- What the phase of a gate says of the history. -/
structure GateState (history : History pg Client) (c : Client) (φ : GatePhase) : Prop where
  dispatched : Dispatched history c → φ = .after
  denied : Denied history c → φ.isShut = true
  permitted : ∀ row, φ = .permitted row → Committed history c (.insertAudit row)
  succeeded : φ.isOpen = true →
    ∀ e ∈ history, e.client = c → e.cmd ≠ .rollback → e.reply.isSome = true

omit [DecidableEq Client] in
private theorem gateState_other {e : Label (store pg) Client} {c : Client} (hne : e.client ≠ c)
    (h : GateState history c φ) : GateState (history ++ [e]) c φ where
  dispatched hdispatched := by
    obtain ⟨d, hd, hclient, hdispatch⟩ := hdispatched
    rcases List.mem_append.mp hd with hd | hd
    · exact h.dispatched ⟨d, hd, hclient, hdispatch⟩
    · rw [List.mem_singleton.mp hd] at hclient
      exact absurd hclient hne
  denied hdenied := by
    obtain ⟨input, decision, hd, hdeny⟩ := hdenied
    rcases List.mem_append.mp hd with hd | hd
    · exact h.denied ⟨input, decision, hd, hdeny⟩
    · rw [← List.mem_singleton.mp hd] at hne
      exact absurd rfl hne
  permitted row hφ := committed_append.mpr (.inl (h.permitted row hφ))
  succeeded hφ d hd hclient := by
    rcases List.mem_append.mp hd with hd | hd
    · exact h.succeeded hφ d hd hclient
    · rw [List.mem_singleton.mp hd] at hclient
      exact absurd hclient hne

omit [DecidableEq Client] in
private theorem gateState_own {φ' : GatePhase} {e : Label (store pg) Client}
    (hstep : GateMoves pg (calls e.client) φ contents e.cmd e.reply e.writes φ')
    (h : GateState history e.client φ) : GateState (history ++ [e]) e.client φ' where
  dispatched hdispatched := by
    obtain ⟨d, hd, hclient, hdispatch⟩ := hdispatched
    rcases List.mem_append.mp hd with hd | hd
    · obtain rfl := h.dispatched ⟨d, hd, hclient, hdispatch⟩
      exact hstep.after
    · obtain rfl := List.mem_singleton.mp hd
      obtain ⟨c, k, r, ws⟩ := d
      obtain ⟨hr, target, rfl⟩ := hdispatch
      exact (GateMoves.of_dispatch hstep hr).1
  denied hdenied := by
    obtain ⟨input, decision, hd, hdeny⟩ := hdenied
    rcases List.mem_append.mp hd with hd | hd
    · exact hstep.shut (h.denied ⟨input, decision, hd, hdeny⟩)
    · obtain ⟨c, k, r, ws⟩ := e
      cases List.mem_singleton.mp hd
      exact GateMoves.of_denied hstep hdeny
  permitted row hφ' := by
    rcases hstep.permits hφ' with hφ | hmem
    · exact committed_append.mpr (.inl (h.permitted row hφ))
    · exact committed_append.mpr (.inr ⟨rfl, hmem⟩)
  succeeded hφ' d hd hclient := by
    obtain ⟨hφ, hreply⟩ := hstep.open hφ'
    rcases List.mem_append.mp hd with hd | hd
    · exact h.succeeded hφ d hd hclient
    · rw [List.mem_singleton.mp hd]
      exact hreply

theorem gateState_of_trace
    (h : (gateProtocol pg calls).Trace (fun _ => .ready) init history phases contents) (c : Client) :
    GateState history c (phases c) := by
  refine h.phase_invariant (motive := fun c φ history => GateState history c φ) ?_ ?_ ?_ c
  · intro c
    constructor
    · intro h
      obtain ⟨e, he, -⟩ := h
      exact absurd he List.not_mem_nil
    · intro h
      obtain ⟨input, decision, he, -⟩ := h
      exact absurd he List.not_mem_nil
    · intro row hφ
      exact absurd hφ (by simp)
    · intro _ e he
      exact absurd he List.not_mem_nil
  · intro history phases contents φ e _ hstep ih
    exact gateState_own hstep ih
  · intro history c φ e hne ih
    exact gateState_other hne ih

/-- Whatever is dispatched to was asked for and is on the allowlist of the call, which has written
the record that permits it before and has dispatched to nothing else; a call that was denied
dispatches to nothing, and neither does one of which a command has failed. -/
theorem dispatch_is_permitted {schedule : List (Client × Choice)}
    {W : World (store pg) Client Thrown Unit}
    (hrun : World.run schedule (gates pg sha256 calls init) = some W)
    {p s : List (Label (store pg) Client)} {e : Label (store pg) Client} {target : Dispatch}
    (hhistory : W.history = p ++ e :: s) (hcmd : e.cmd = .ext (.dispatch target)) :
    (calls e.client).Lists target ∧
      (∃ row, Committed p e.client (.insertAudit row) ∧
        Permits row (calls e.client).actor target) ∧
      (∀ d ∈ p, d.client = e.client → d.cmd ≠ .rollback → d.reply.isSome = true) ∧
      ¬Denied W.history e.client ∧ ¬Dispatched p e.client := by
  have hmem : e ∈ W.history := by
    rw [hhistory]
    exact List.mem_append_right _ List.mem_cons_self
  have hreply := World.reply_of_run hrun (x := .dispatch target) (fun _ => rfl) hmem hcmd
  obtain ⟨phases, htrace⟩ := exists_trace (G := protection pg) (P := gateProtocol pg calls)
    (fun c => safe_run c) hrun
  have hdispatched : Dispatched W.history e.client := ⟨e, hmem, rfl, hreply, target, hcmd⟩
  have hafter := (gateState_of_trace htrace e.client).dispatched hdispatched
  have hallowed : ¬Denied W.history e.client := by
    intro hdenied
    have hshut := (gateState_of_trace htrace e.client).denied hdenied
    rw [hafter] at hshut
    exact absurd hshut (by simp [GatePhase.isShut])
  rw [hhistory] at htrace
  obtain ⟨phases', contents', φ, hbefore, hstep, -⟩ := htrace.split
  obtain ⟨c, k, r, ws⟩ := e
  obtain rfl : k = .ext (.dispatch target) := hcmd
  obtain ⟨-, hlists, row, hphase, hpermits⟩ := GateMoves.of_dispatch hstep hreply
  have hstate := gateState_of_trace hbefore c
  refine ⟨hlists, ⟨row, hstate.permitted row hphase, hpermits⟩, ?_, hallowed, ?_⟩
  · apply hstate.succeeded
    rw [hphase]
    rfl
  · intro hbefore
    have hafter := hstate.dispatched hbefore
    rw [hphase] at hafter
    cases hafter

/-- A registered tool, and a task that may call it. -/
def readTool : Agents.RegisteredTool where
  name := "read"
  inputSchema := Object.empty.toValue
  entrypoint := "read"

def reader : GateCall :=
  .tool { tools := [readTool], validate := fun _ _ => none, driverMessage := [] }
    { id := "agent:review@vendors", roles := [] } { name := "review", tools := some ["read"] }
    { tool := "read", input := .empty }

def isDispatch {pg : Postgres} : Cmd (store pg) → Bool
  | .ext (.dispatch _) => true
  | _ => false

private theorem eq_of_isDispatch {pg : Postgres} {k : Cmd (store pg)} (h : isDispatch k = true) :
    ∃ target, k = .ext (.dispatch target) := by
  unfold isDispatch at h
  split at h
  · exact ⟨_, rfl⟩
  · exact absurd h (by simp)

theorem dispatch_is_permitted_read :
    ∃ W, World.run (List.replicate 11 ((), untroubled))
        (gates postgresText lengthHash (fun _ => reader) noVendor) = some W ∧
      ∃ p e s target, W.history = p ++ e :: s ∧ e.cmd = .ext (.dispatch target) ∧
        reader.Lists target ∧
        (∃ row, Committed p e.client (.insertAudit row) ∧ Permits row reader.actor target) ∧
        (∀ d ∈ p, d.client = e.client → d.cmd ≠ .rollback → d.reply.isSome = true) ∧
        ¬Denied W.history e.client ∧ ¬Dispatched p e.client := by
  have hsome : (World.run (List.replicate 11 ((), untroubled))
      (gates postgresText lengthHash (fun _ => reader) noVendor)).map (fun W =>
        W.history.any fun e => isDispatch e.cmd) = some true := by decide +kernel
  obtain ⟨W, hrun, hany⟩ := Option.map_eq_some_iff.mp hsome
  obtain ⟨e, he, hdispatch⟩ := List.any_eq_true.mp hany
  obtain ⟨p, s, hhistory⟩ := List.append_of_mem he
  obtain ⟨target, hcmd⟩ := eq_of_isDispatch hdispatch
  exact ⟨W, hrun, p, e, s, target, hhistory, hcmd, dispatch_is_permitted hrun hhistory hcmd⟩

end Runs

end OpenRupiv.Runtime
