import OpenRupiv.Runtime.Audit

/-!
# Workflow transitions with n-eyes approvals

`packages/runtime/src/workflows.ts`.
-/

namespace OpenRupiv.Runtime

open Js Lib Spec Audit

/-- The value of a finite number. -/
def numValue : Num → Option ℚ
  | .zero _ => some 0
  | .finite d =>
      let magnitude : ℚ := digitsValue d.digits * (10 : ℚ) ^ (d.point - d.digits.length)
      some (if d.neg then -magnitude else magnitude)
  | .infinite _ => none

/-- `Number(value)`; `none` is `NaN`. -/
def toNumber (host : Host) : SqlValue → Option Num
  | .null => some (.zero false)
  | .str s => host.toNumber s
  | .num n => some n
  | .bool b => some (.ofInt (if b then 1 else 0))
  | .date ms => some (.ofInt ms)

def Literal.toValue : Literal → SqlValue
  | .str s => .str (ofString s)
  | .num n => .num n
  | .bool b => .bool b

def toComparable (host : Host) (value : SqlValue) (field : FieldDef) : Option ℚ :=
  if field.type = .number then (toNumber host value).bind numValue
  else match value with
    | .date ms => some ms
    | .str s => (host.dateParse s).map fun ms => (ms : ℚ)
    | _ => none

def looseEquals (host : Host) (raw : SqlValue) (expected : Literal) (field : FieldDef) : Bool :=
  match field.type with
  | .number =>
      match expected with
      | .num n => (toNumber host raw).map Num.unsigned = some n.unsigned
      | _ => false
  | .boolean =>
      match expected with
      | .bool b => raw = .bool b
      | _ => false
  | .date | .datetime =>
      let left := toComparable host raw field
      left ≠ none && left = toComparable host (Literal.toValue expected) field
  | _ =>
      match expected with
      | .str s => raw = .str (ofString s)
      | _ => false

/-- `left op right` on numbers. -/
def compareOp : PredicateOp → ℚ → ℚ → Bool
  | .gt, l, r => r < l
  | .gte, l, r => r ≤ l
  | .lt, l, r => l < r
  | .lte, l, r => l ≤ r
  | _, _, _ => false

/-- An undefined `predicate.value` equals nothing and compares with nothing. -/
def evaluatePredicate (host : Host) (predicate : FieldPredicate) (field : FieldDef) (row : Row) :
    Bool :=
  let raw := (row (columnFor field)).getD .null
  let isSet := raw ≠ .null
  let equal := predicate.value.any fun value => looseEquals host raw value field
  match predicate.op with
  | .set => isSet
  | .notSet => !isSet
  | .eq => isSet && equal
  | .ne => isSet && !equal
  | op =>
      let right := predicate.value.bind fun value => toComparable host (Literal.toValue value) field
      match toComparable host raw field, right with
      | some left, some right => isSet && compareOp op left right
      | _, _ => false

def unknownGuardField (predicate : FieldPredicate) : RuntimeError where
  code := .ERR_INTERNAL
  message := ofString "guard predicate references unknown field " ++
    jsonText (ofString predicate.field)

def guardFailed (predicate : FieldPredicate) : RuntimeError where
  code := .ERR_GUARD_FAILED
  message := ofString ("guard predicate failed: " ++ predicate.field ++ " " ++ predicate.op.text) ++
    match predicate.value with
    | some value => ofString " " ++ jsonLiteral value
    | none => []
  statusCode := 409
  details := some (.predicate predicate)

def checkPredicates (host : Host) (model : EntityModel) (row : Row) :
    List FieldPredicate → Except RuntimeError Unit
  | [] => .ok ()
  | predicate :: rest =>
      match model.fieldByName.lookup predicate.field with
      | none => .error (unknownGuardField predicate)
      | some field =>
          if evaluatePredicate host predicate field row then checkPredicates host model row rest
          else .error (guardFailed predicate)

def checkGuardPredicates (host : Host) (transition : TransitionDef) (model : EntityModel)
    (row : Row) : Except RuntimeError Unit :=
  checkPredicates host model row ((transition.guard.bind (·.require)).getD [])

structure User where
  sub : String
  roles : List String
  deriving DecidableEq

structure ExecuteTransitionInput where
  model : EntityModel
  workflow : WorkflowDef
  transition : TransitionDef
  recordId : String
  user : User
  deriving DecidableEq

/-- The two questions that a transition puts to the policy engine. -/
inductive Question where
  | fire
  | approve
  deriving DecidableEq

namespace ExecuteTransitionInput

variable (i : ExecuteTransitionInput)

def table : String := i.model.table

def stateColumn : String := toSnakeCase i.workflow.stateField

def subject : String := i.table ++ ":" ++ i.recordId

def guardRoles : List String := (i.transition.guard.bind (·.roles)).getD []

def action : Question → String
  | .fire => "workflow.transition:" ++ i.transition.name
  | .approve => "workflow.approve:" ++ i.transition.name

def allowedRoles : Question → List String
  | .fire => i.guardRoles
  | .approve => ((i.transition.approval.bind (·.roles)).or (i.transition.guard.bind (·.roles))).getD []

def policyInput (q : Question) : PolicyInput where
  subjectId := i.user.sub
  subjectRoles := i.user.roles
  action := i.action q
  resourceType := "workflow.transition"
  resourceId := some i.subject
  allowedRoles := i.allowedRoles q

def notFound : RuntimeError where
  code := .ERR_NOT_FOUND
  message := ofString (i.model.entity.name ++ " " ++ i.recordId ++ " not found")
  statusCode := 404

def badState (actual : Option SqlValue) : RuntimeError where
  code := .ERR_BAD_STATE
  message := ofString "transition " ++ jsonText (ofString i.transition.name) ++
    ofString " requires state " ++ jsonText (ofString i.transition.from) ++
    ofString " but record is in " ++ jsonValue actual
  statusCode := 409
  details := some (.state i.transition.from actual)

def forbiddenRole (q : Question) (decision : PolicyDecision) : RuntimeError where
  code := .ERR_FORBIDDEN_ROLE
  message :=
    (match q with
    | .fire => ofString "transition " ++ jsonText (ofString i.transition.name)
    | .approve => ofString "approving " ++ jsonText (ofString i.transition.name)) ++
    ofString " requires one of roles " ++ jsonTexts (i.allowedRoles q)
  statusCode := 403
  details := some (.roles (i.allowedRoles q) decision.reason)

def duplicateApprover : RuntimeError where
  code := .ERR_DUPLICATE_APPROVER
  message := ofString "user has already approved transition " ++
    jsonText (ofString i.transition.name) ++
    ofString " for this record; approvals must come from distinct users"
  statusCode := 409

def stateUpdateFailed (rowCount : Nat) : RuntimeError where
  code := .ERR_INTERNAL
  message := ofString ("state update affected " ++ toString rowCount ++ " rows for " ++ i.table ++
    " " ++ i.recordId)

def requireRow : Option Row → Except RuntimeError Row
  | some row => .ok row
  | none => .error i.notFound

def requireFrom (row : Row) : Except RuntimeError Unit :=
  if row i.stateColumn = some (.str (ofString i.transition.from)) then .ok ()
  else .error (i.badState (row i.stateColumn))

def requireAllowed (q : Question) (decision : PolicyDecision) : Except RuntimeError Unit :=
  if decision.allow then .ok () else .error (i.forbiddenRole q decision)

private theorem distinctKeys_of_flat {members : List (Text × Json)}
    (hkeys : (keysOf members).Nodup) (hvalues : ∀ m ∈ members, m.2.distinctKeys = true) :
    (Json.obj members).distinctKeys = true := by
  rw [Json.distinctKeys_obj]
  exact ⟨hkeys, hvalues⟩

def text (s : String) : Json := .scalar (.str (ofString s))

def count (n : Nat) : Json := .scalar (.num (.ofInt n))

def entry (key : String) (value : Json) : Text × Json := (ofString key, value)

def record (event : String) (decision : Decision) (attributes : Object) : AuditRecordInput where
  event := ofString event
  actor := ofString i.user.sub
  actorType := .human
  subject := some (ofString i.subject)
  decision := some decision
  attributes := some attributes

/-- `policy.decision`. -/
def decisionRecord (q : Question) (decision : PolicyDecision) : AuditRecordInput :=
  i.record "policy.decision" (if decision.allow then .allow else .deny)
    { members :=
        [entry "action" (text (i.action q)),
          entry "allowedRoles" (.arr ((i.allowedRoles q).map text)),
          entry "policyId" (.scalar (.str decision.policyId)),
          entry "reason" (.scalar (.str decision.reason)),
          entry "workflow" (text i.workflow.name),
          entry "transition" (text i.transition.name)]
      distinct := distinctKeys_of_flat (by simp [keysOf, entry]) (by simp [entry, text]) }

/-- `workflow.duplicate_approver`. -/
def duplicateRecord : AuditRecordInput :=
  i.record "workflow.duplicate_approver" .deny
    { members :=
        [entry "workflow" (text i.workflow.name), entry "transition" (text i.transition.name)]
      distinct := distinctKeys_of_flat (by simp [keysOf, entry]) (by simp [entry, text]) }

/-- `workflow.transition`; with the approvals and the required ones for a final approval. -/
def transitionRecord : Option (Nat × Nat) → AuditRecordInput
  | none =>
      i.record "workflow.transition" .allow
        { members :=
            [entry "workflow" (text i.workflow.name), entry "transition" (text i.transition.name),
              entry "from" (text i.transition.from), entry "to" (text i.transition.to)]
          distinct := distinctKeys_of_flat (by simp [keysOf, entry]) (by simp [entry, text]) }
  | some (approvals, required) =>
      i.record "workflow.transition" .allow
        { members :=
            [entry "workflow" (text i.workflow.name), entry "transition" (text i.transition.name),
              entry "from" (text i.transition.from), entry "to" (text i.transition.to),
              entry "approvals" (count approvals), entry "required" (count required)]
          distinct := distinctKeys_of_flat (by simp [keysOf, entry]) (by simp [entry, text, count]) }

/-- `workflow.approval_recorded`. -/
def approvalRecord (approvals required : Nat) : AuditRecordInput :=
  i.record "workflow.approval_recorded" .allow
    { members :=
        [entry "workflow" (text i.workflow.name), entry "transition" (text i.transition.name),
          entry "approvals" (count approvals), entry "required" (count required)]
      distinct := distinctKeys_of_flat (by simp [keysOf, entry]) (by simp [entry, text, count]) }

end ExecuteTransitionInput

/-- An error together with the events that were queued before it was thrown. -/
structure Raised where
  error : Thrown
  independentEvents : List AuditRecordInput

instance : Fault Raised := ⟨⟨.fault, []⟩⟩

/-- Exceptions that can carry a `RuntimeError`. -/
class Raises (ε : Type) extends Fault ε where
  raise : RuntimeError → ε

instance : Raises Thrown where
  raise := .runtime

instance : Raises Raised where
  raise error := ⟨.runtime error, []⟩

variable {pg : Postgres} {ε : Type}

def check [Raises ε] {α : Type} (x : Except RuntimeError α) : Async pg ε α :=
  .ofExcept (x.mapError Raises.raise)

/-- Asks the policy engine, and records its decision before anything else happens. -/
def decide (sha256 : String → String) (i : ExecuteTransitionInput) (q : Question) :
    Async pg Thrown PolicyDecision := do
  let decision ← ext (.decide (i.policyInput q))
  log (.policyDecision (i.action q) decision i.user.sub)
  appendOrFail sha256 (i.decisionRecord q decision)
  return decision

def setState [Raises ε] (i : ExecuteTransitionInput) : Async pg ε Unit := do
  let _ ← check (quoteIdent i.table)
  let _ ← check (quoteIdent i.stateColumn)
  let rowCount ← tx (.updateState i.table i.stateColumn i.transition.to i.recordId)
  if rowCount ≠ 1 then check (.error (i.stateUpdateFailed rowCount))
  else tx (.deleteApprovals i.table i.recordId)

/-- The state change with its audit record, on the transaction of the caller. -/
def applyTransition [Raises ε] (sha256 : String → String) (i : ExecuteTransitionInput)
    (approvals : Option (Nat × Nat)) : Async pg ε TransitionOutcome := do
  setState i
  let _ ← appendInTransaction sha256 false (i.transitionRecord approvals)
  log (.transitioned i.workflow.name i.table i.recordId i.transition.name i.transition.from
    i.transition.to i.user.sub approvals)
  return .transitioned i.transition.to

/-- The n-eyes part: the approval, and the state change when it is the last one. -/
def approveTransition (sha256 : String → String) (i : ExecuteTransitionInput) (rule : ApprovalRule) :
    Async pg Raised TransitionOutcome := do
  let inserted ← tx (.insertApproval i.table i.recordId i.transition.name i.user.sub)
  if inserted = false then
    log (.duplicateApprover i.workflow.name i.table i.recordId i.transition.name i.user.sub)
    .throw ⟨.runtime i.duplicateApprover, [i.duplicateRecord]⟩
  else
    let approvals ← tx (.countApprovals i.table i.recordId i.transition.name)
    if approvals ≥ rule.count then applyTransition sha256 i (some (approvals, rule.count))
    else
      let _ ← appendInTransaction sha256 false (i.approvalRecord approvals rule.count)
      log (.approvalRecorded i.workflow.name i.table i.recordId i.transition.name i.user.sub
        approvals rule.count)
      return .pending approvals rule.count

/-- The callback of `db.transaction` in `executeTransition`. -/
def transitionBody (host : Host) (sha256 : String → String) (i : ExecuteTransitionInput) :
    Async pg Raised TransitionOutcome := do
  let _ ← check (quoteIdent i.table)
  let found ← tx (.selectForUpdate i.table i.recordId)
  let row ← check (i.requireRow found)
  check (i.requireFrom row)
  check (checkGuardPredicates host i.transition i.model row)
  match i.transition.approval with
  | none => applyTransition sha256 i none
  | some rule => approveTransition sha256 i rule

/-- A decision that denies ends the request. -/
def ask (sha256 : String → String) (i : ExecuteTransitionInput) (q : Question) :
    Async pg Thrown Unit := do
  let decision ← decide sha256 i q
  check (i.requireAllowed q decision)

/-- The questions in the order of the code: the guard predicates stand between them. -/
def authorize (host : Host) (sha256 : String → String) (i : ExecuteTransitionInput) (peekRow : Row) :
    Async pg Thrown Unit := do
  ask sha256 i .fire
  check (checkGuardPredicates host i.transition i.model peekRow)
  if i.transition.approval.isSome then ask sha256 i .approve else return ()

def executeTransition (host : Host) (sha256 : String → String) (i : ExecuteTransitionInput) :
    Async pg Thrown TransitionOutcome := do
  let _ ← check (quoteIdent i.table)
  let peek ← query (.selectById i.table i.recordId)
  let peekRow ← check (i.requireRow peek)
  check (i.requireFrom peekRow)
  authorize host sha256 i peekRow
  let outcome ← (transaction (transitionBody host sha256 i)).result
  match outcome with
  | .ok outcome =>
      appendAllOrFail sha256 []
      return outcome
  | .error raised =>
      appendAllOrFail sha256 raised.independentEvents
      .throw raised.error

end OpenRupiv.Runtime
