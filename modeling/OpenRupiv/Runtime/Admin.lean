import OpenRupiv.Policy.Authz
import OpenRupiv.Runtime.Workflows

/-!
# Platform roles

The routes of `packages/runtime/src/admin.ts` and `packages/runtime/src/admin-agents.ts` that need a
platform role, and the roles that the login callback of `packages/runtime/src/auth.ts` gives a
session.
-/

namespace OpenRupiv.Runtime

open Js Lib Spec Audit

def AUDIT_READ_ROLES : List String := ["admin", "auditor"]

def AGENT_TRIGGER_ROLES : List String := ["admin"]

/-- Without the roles that the app declares for purposes of its own. -/
def platformRoles (appRoles roles : List String) : List String :=
  roles.filter fun role => role ∉ appRoles

/-- A decision that takes a platform role. -/
structure PlatformGate where
  action : String
  resourceType : String
  resourceId : Option String
  allowedRoles : List String
  /-- The subject of its record. -/
  subject : String
  /-- What requires one of the roles. -/
  requires : Text
  logged : Bool

namespace PlatformGate

def auditRead : PlatformGate where
  action := "audit.read"
  resourceType := "audit_log"
  resourceId := none
  allowedRoles := AUDIT_READ_ROLES
  subject := "audit_log"
  requires := ofString "reading the audit log"
  logged := true

def agentTrigger (taskName : String) : PlatformGate where
  action := "agent.trigger"
  resourceType := "agent.task"
  resourceId := some taskName
  allowedRoles := AGENT_TRIGGER_ROLES
  subject := "agent_task:" ++ taskName
  requires := ofString "triggering agent task " ++ jsonText (ofString taskName)
  logged := false

variable (gate : PlatformGate) (appRoles : List String)

def input (session : User) : PolicyInput where
  subjectId := session.sub
  subjectRoles := platformRoles appRoles session.roles
  action := gate.action
  resourceType := gate.resourceType
  resourceId := gate.resourceId
  allowedRoles := gate.allowedRoles

def record (session : User) (decision : PolicyDecision) : AuditRecordInput where
  event := ofString "policy.decision"
  actor := ofString session.sub
  actorType := .human
  subject := some (ofString gate.subject)
  decision := some (if decision.allow then .allow else .deny)
  attributes := some (literal
    [("action", ofText (ofString gate.action)), ("allowedRoles", ofTexts gate.allowedRoles),
      ("policyId", ofText decision.policyId), ("reason", ofText decision.reason)])

def forbidden (decision : PolicyDecision) : RuntimeError where
  code := .ERR_FORBIDDEN_ROLE
  message := gate.requires ++ ofString " requires one of roles " ++ jsonTexts gate.allowedRoles
  statusCode := 403
  details := some (.roles gate.allowedRoles decision.reason)

def unauthenticated : RuntimeError where
  code := .ERR_UNAUTHENTICATED
  message := ofString "authentication required"
  statusCode := 401

/-- The decision is recorded before it is enforced. -/
def authorize {pg : Postgres} (sha256 : String → String) : Option User → Async pg Thrown Unit
  | none => .throw (.runtime unauthenticated)
  | some session => do
      let decision ← ext (.decide (gate.input appRoles session))
      if gate.logged then log (.policyDecision gate.action decision session.sub)
      appendOrFail sha256 (gate.record session decision)
      if decision.allow then return ()
      else .throw (.runtime (gate.forbidden decision))

end PlatformGate

def authorizeAuditRead {pg : Postgres} (sha256 : String → String) (appRoles : List String) :
    Option User → Async pg Thrown Unit :=
  PlatformGate.auditRead.authorize appRoles sha256

def authorizeAgents {pg : Postgres} (sha256 : String → String) (appRoles : List String)
    (taskName : String) : Option User → Async pg Thrown Unit :=
  (PlatformGate.agentTrigger taskName).authorize appRoles sha256

/-- The dev-mode grant: a user who comes without a role gets every role of the app. -/
def devGrant (devMode : Bool) (appRoles claimed : List String) : Bool :=
  claimed.length = 0 && devMode && appRoles.length > 0

/-- The roles of a new session, `claimed` being those of the ID token. -/
def callbackRoles (devMode : Bool) (appRoles claimed : List String) : List String :=
  if devGrant devMode appRoles claimed then appRoles else claimed

inductive PlatformRoute where
  | auditRead
  | agentTrigger (taskName : String)

def PlatformRoute.gate : PlatformRoute → PlatformGate
  | .auditRead => .auditRead
  | .agentTrigger taskName => .agentTrigger taskName

/-- What the policy decides for a session. -/
def PlatformRoute.decision (route : PlatformRoute) (format : List String → Text)
    (appRoles : List String) (session : User) : PolicyDecision :=
  Policy.authz format (route.gate.input appRoles session)

section Decisions

variable {format : List String → Text} {appRoles : List String} {session : User}

theorem mem_platformRoles {roles : List String} {role : String} :
    role ∈ platformRoles appRoles roles ↔ role ∈ roles ∧ role ∉ appRoles := by
  simp [platformRoles]

theorem PlatformRoute.allowedRoles_ne_nil (route : PlatformRoute) : route.gate.allowedRoles ≠ [] := by
  cases route with
  | auditRead => decide
  | agentTrigger taskName => exact List.cons_ne_nil "admin" []

/-- Some role of the session is a platform role that the app does not declare. -/
theorem PlatformRoute.allow_iff (route : PlatformRoute) :
    (route.decision format appRoles session).allow = true ↔
      ∃ role ∈ session.roles, role ∈ route.gate.allowedRoles ∧ role ∉ appRoles := by
  have hpos : 0 < route.gate.allowedRoles.length := List.length_pos_iff.mpr route.allowedRoles_ne_nil
  have hallow : (route.decision format appRoles session).allow = true ↔
      ∃ role ∈ platformRoles appRoles session.roles, role ∈ route.gate.allowedRoles := by
    rw [decision, Policy.authz_eq]
    simp only [Policy.allow, Policy.toRegoInput, PlatformGate.input, hpos, Nat.ne_of_gt hpos,
      decide_true, decide_false, Bool.true_and, Bool.false_and, Bool.or_false, List.any_eq_true]
    exact exists_congr fun role => and_congr_right fun _ => decide_eq_true_iff
  rw [hallow]
  constructor
  · intro h
    obtain ⟨role, hmem, hallowed⟩ := h
    rw [mem_platformRoles] at hmem
    exact ⟨role, hmem.1, hallowed, hmem.2⟩
  · intro h
    obtain ⟨role, hmem, hallowed, hnot⟩ := h
    exact ⟨role, mem_platformRoles.mpr ⟨hmem, hnot⟩, hallowed⟩

/-- The route asks for the decision on its own input, and serves the user only when it allows. -/
theorem PlatformGate.allow_of_run {pg : Postgres} (gate : PlatformGate) {sha256 : String → String}
    {decision : PolicyDecision} {rest : List (Prog.Answered (Cmd.Reply (E := store pg)))}
    (h : (gate.authorize appRoles sha256 (some session) : Async pg Thrown Unit).Run
      (⟨.ext (.decide (gate.input appRoles session)), some decision⟩ :: rest) (.ok ())) :
    decision.allow = true := by
  by_contra hdenied
  unfold authorize ext at h
  obtain ⟨_, _, heq, hasked⟩ | ⟨heq, -⟩ := Prog.run_perform_bind_iff.mp h
  case inr => cases heq
  cases heq
  have hrecorded : ∀ {trace}, ¬((appendOrFail sha256 (gate.record session decision) >>= fun _ =>
      .throw (.runtime (gate.forbidden decision)) : Async pg Thrown Unit)).Run trace (.ok ()) := by
    intro trace h
    obtain ⟨_, _, _, -, hended, -⟩ | ⟨_, -, heq⟩ := Prog.run_bind_iff.mp h
    · obtain ⟨-, heq⟩ := Prog.run_throw_iff.mp hended
      cases heq
    · cases heq
  dsimp only at hasked
  split at hasked
  · obtain ⟨_, _, _, -, hlogged, -⟩ | ⟨_, -, heq⟩ := Prog.run_bind_iff.mp hasked
    · exact hrecorded hlogged
    · cases heq
  · exact hrecorded hasked

theorem callbackRoles_of_devGrant {devMode : Bool} {claimed : List String}
    (h : devGrant devMode appRoles claimed = true) : callbackRoles devMode appRoles claimed = appRoles :=
  if_pos h

/-- The roles that an app declares have no part in a platform decision: they neither open it nor
close it, a user who was granted them is denied, and the route serves nobody whom the decision
denies. -/
theorem platform_roles_noninterference (format : List String → Text) (spec : AppSpec)
    (route : PlatformRoute) (session : User) :
    let appRoles := spec.app.roles.getD []
    let decision (roles : List String) :=
      route.decision format appRoles { session with roles }
    (∀ roles roles', (∀ role, role ∉ appRoles → (role ∈ roles ↔ role ∈ roles')) →
        (decision roles).allow = (decision roles').allow) ∧
      (∀ roles, (decision roles).allow = true ↔
        ∃ role ∈ roles, role ∈ route.gate.allowedRoles ∧ role ∉ appRoles) ∧
      (∀ claimed, devGrant true appRoles claimed = true →
        (decision (callbackRoles true appRoles claimed)).allow = false) ∧
      (∀ roles roles', platformRoles appRoles roles = platformRoles appRoles roles' →
        decision roles = decision roles') ∧
      ∀ (pg : Postgres) (sha256 : String → String) (roles : List String) rest,
        (route.gate.authorize appRoles sha256 (some { session with roles }) :
            Async pg Thrown Unit).Run
          (⟨.ext (.decide (route.gate.input appRoles { session with roles })),
            some (decision roles)⟩ :: rest) (.ok ()) →
        (decision roles).allow = true := by
  intro appRoles decision
  have hiff : ∀ roles, (decision roles).allow = true ↔
      ∃ role ∈ roles, role ∈ route.gate.allowedRoles ∧ role ∉ appRoles :=
    fun _ => route.allow_iff
  refine ⟨?_, hiff, ?_, ?_, fun pg sha256 roles rest hrun => route.gate.allow_of_run hrun⟩
  · intro roles roles' hagree
    rw [Bool.eq_iff_iff, hiff, hiff]
    constructor
    · intro h
      obtain ⟨role, hmem, hallowed, hnot⟩ := h
      exact ⟨role, (hagree role hnot).mp hmem, hallowed, hnot⟩
    · intro h
      obtain ⟨role, hmem, hallowed, hnot⟩ := h
      exact ⟨role, (hagree role hnot).mpr hmem, hallowed, hnot⟩
  · intro claimed hgrant
    rw [callbackRoles_of_devGrant hgrant, Bool.eq_false_iff, Ne, hiff]
    intro h
    obtain ⟨role, hmem, -, hnot⟩ := h
    exact hnot hmem
  · intro roles roles' h
    simp only [decision, PlatformRoute.decision, PlatformGate.input, h]

/-- An app that declares the role of an auditor. -/
def audits : AppSpec where
  specVersion := .v0_1
  app := { name := "Audits", slug := "audits", version := "1.0.0", roles := some ["auditor"] }
  entities := []

theorem platform_roles_noninterference_audits :
    let decision (roles : List String) :=
      PlatformRoute.auditRead.decision (fun _ => []) ["auditor"] ⟨"ann", roles⟩
    (decision ["admin", "auditor"]).allow = (decision ["admin"]).allow ∧
      (decision (callbackRoles true ["auditor"] [])).allow = false := by
  intro decision
  have h := platform_roles_noninterference (fun _ => []) audits .auditRead ⟨"ann", []⟩
  refine ⟨h.1 ["admin", "auditor"] ["admin"] ?_, h.2.2.1 [] (by decide)⟩
  intro role hrole
  have hne : role ≠ "auditor" := by simpa [audits] using hrole
  simp [hne]

end Decisions

end OpenRupiv.Runtime
