import OpenRupiv.Audit.Literal
import OpenRupiv.Runtime.Database

/-!
# The policy decision point

`packages/policy/policy/authz.rego`, which the bundle is compiled from, and the engine of
`packages/policy/src/engine.ts` around it.  How `sprintf` prints a list is a parameter.
-/

namespace OpenRupiv.Policy

open Js Audit OpenRupiv.Runtime

/-- What the policy reads of its input. -/
structure RegoInput where
  id : String
  roles : List String
  action : String
  allowed_roles : List String

def toRegoInput (input : PolicyInput) : RegoInput where
  id := input.subjectId
  roles := input.subjectRoles
  action := input.action
  allowed_roles := input.allowedRoles

section Rego

variable (format : List String → Text) (input : RegoInput)

def allow : Bool :=
  (input.allowed_roles.length > 0 && input.roles.any (· ∈ input.allowed_roles)) ||
    (input.allowed_roles.length = 0 && input.id ≠ "")

def reason : Text :=
  if allow input then
    if input.allowed_roles.length = 0 then
      ofString "no roles required; authenticated subject permitted"
    else ofString ("subject holds a required role for " ++ input.action)
  else
    ofString "subject roles " ++ format input.roles ++ ofString " do not intersect required roles " ++
      format input.allowed_roles ++ ofString (" for " ++ input.action)

def decision : Value :=
  (literal [("allow", ⟨.scalar (.bool (allow input)), by simp⟩),
    ("reason", ofText (reason format input))]).toValue

end Rego

def POLICY_ID : Text := ofString "openrupiv.authz"

/-- `decide`, given what the bundle evaluates to: an error, no result, or a result.  Anything but
an explicit `true` denies. -/
def decide (evaluate : RegoInput → Except Text (Option Value)) (input : PolicyInput) :
    PolicyDecision :=
  match evaluate (toRegoInput input) with
  | .error message =>
      { allow := false
        reason := ofString "policy evaluation error (fail-closed): " ++ message
        policyId := POLICY_ID }
  | .ok result =>
      let member (k : String) := result.bind fun v => memberOf v (ofString k)
      let allow := match member "allow" with
        | some (.scalar (.bool b)) => b
        | _ => false
      let reason := match member "reason" with
        | some (.scalar (.str s)) => s
        | _ =>
            if allow then ofString "allowed"
            else ofString "denied by default (no matching policy result)"
      { allow, reason, policyId := POLICY_ID }

/-- The engine over the policy. -/
def authz (format : List String → Text) : PolicyInput → PolicyDecision :=
  decide fun input => .ok (some (decision format input))

theorem authz_eq (format : List String → Text) (input : PolicyInput) :
    authz format input =
      { allow := allow (toRegoInput input)
        reason := reason format (toRegoInput input)
        policyId := POLICY_ID } := by
  have hnodup : (([("allow", ⟨.scalar (.bool (allow (toRegoInput input))), by simp⟩),
      ("reason", ofText (reason format (toRegoInput input)))] : List (String × Value)).map
        Prod.fst).Nodup := by
    simp
  have hallow : memberOf (decision format (toRegoInput input)) (ofString "allow") =
      some (.scalar (.bool (allow (toRegoInput input)))) :=
    lookup_literal hnodup List.mem_cons_self (by decide)
  have hreason : memberOf (decision format (toRegoInput input)) (ofString "reason") =
      some (.scalar (.str (reason format (toRegoInput input)))) :=
    lookup_literal hnodup (List.mem_cons_of_mem _ List.mem_cons_self) (by decide)
  simp [authz, decide, hallow, hreason]

end OpenRupiv.Policy
