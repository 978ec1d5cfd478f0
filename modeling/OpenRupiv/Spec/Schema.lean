import OpenRupiv.Spec.Types

/-!
# The JSON Schema of specs

`packages/spec/src/schema.ts`.  A value of `AppSpec` is a document with the members and types that
the schema asks for; `conforms` is the rest of the schema: patterns, lengths and bounds.
-/

namespace OpenRupiv.Spec

def isLetter (c : Char) : Bool := c.isLower || c.isUpper

def isAlphanumeric (c : Char) : Bool := isLetter c || c.isDigit

/-- `^[A-Z][A-Za-z0-9]*$`. -/
def isEntityName (s : String) : Bool :=
  match s.toList with
  | [] => false
  | c :: rest => c.isUpper && rest.all isAlphanumeric

/-- `^[a-z][A-Za-z0-9]*$`. -/
def isMemberName (s : String) : Bool :=
  match s.toList with
  | [] => false
  | c :: rest => c.isLower && rest.all isAlphanumeric

/-- `[a-z0-9]`. -/
def isLowerOrDigit (c : Char) : Bool := c.isLower || c.isDigit

/-- `^[a-z][a-z0-9]*(?:-[a-z0-9]+)*$`: groups between hyphens, none of them empty. -/
def isKebabName (s : String) : Bool :=
  let groups := s.toList.splitOn '-'
  (s.toList.head?.any Char.isLower) && groups.all fun group => group ≠ [] && group.all isLowerOrDigit

/-- `^[a-z][a-z0-9_]*$`. -/
def isValueName (s : String) : Bool :=
  match s.toList with
  | [] => false
  | c :: rest => c.isLower && rest.all fun d => isLowerOrDigit d || d == '_'

/-- `^\d+\.\d+\.\d+$`. -/
def isSemver (s : String) : Bool :=
  let groups := s.toList.splitOn '.'
  groups.length = 3 && groups.all fun group => group ≠ [] && group.all Char.isDigit

/-- A non-empty array of distinct strings of a pattern. -/
def distinctNames (pattern : String → Bool) (names : List String) : Bool :=
  names ≠ [] && names.Nodup && names.all pattern

/-- A number has to be finite. -/
def Literal.conforms : Literal → Bool
  | .num n => n.isFinite
  | _ => true

def FieldDef.conforms (field : FieldDef) : Bool :=
  isMemberName field.name && field.values.all (distinctNames isValueName) &&
    field.entity.all isEntityName && field.default.all Literal.conforms

def FieldPredicate.conforms (predicate : FieldPredicate) : Bool :=
  isMemberName predicate.field && predicate.value.all Literal.conforms

def RelationDef.conforms (relation : RelationDef) : Bool :=
  isMemberName relation.name && isEntityName relation.to

def EntityDef.conforms (entity : EntityDef) : Bool :=
  isEntityName entity.name && entity.fields ≠ [] && entity.fields.all FieldDef.conforms &&
    entity.relations.all fun relations => relations.all RelationDef.conforms

def PageDef.conforms (page : PageDef) : Bool :=
  isKebabName page.name && isEntityName page.entity && page.fields.all (distinctNames isMemberName)

def TransitionGuard.conforms (guard : TransitionGuard) : Bool :=
  (guard.roles.isSome || guard.require.isSome) && guard.roles.all (distinctNames isValueName) &&
    guard.require.all fun predicates =>
      predicates ≠ [] && predicates.all FieldPredicate.conforms

def ApprovalRule.conforms (rule : ApprovalRule) : Bool :=
  2 ≤ rule.count && rule.roles.all (distinctNames isValueName)

def TransitionDef.conforms (transition : TransitionDef) : Bool :=
  isKebabName transition.name && isValueName transition.from && isValueName transition.to &&
    transition.guard.all TransitionGuard.conforms && transition.approval.all ApprovalRule.conforms

def WorkflowDef.conforms (workflow : WorkflowDef) : Bool :=
  isKebabName workflow.name && isEntityName workflow.entity && isMemberName workflow.stateField &&
    isValueName workflow.initial && workflow.transitions ≠ [] &&
    workflow.transitions.all TransitionDef.conforms

def AgentTaskDef.conforms (task : AgentTaskDef) : Bool :=
  isKebabName task.name &&
    task.tools.all (fun tools => tools.Nodup && tools.all isKebabName) &&
    task.proposes.all fun refs =>
      refs ≠ [] && refs.all fun ref => isKebabName ref.workflow && isKebabName ref.transition

def AppMeta.conforms (app : AppMeta) : Bool :=
  app.name ≠ "" && isKebabName app.slug && isSemver app.version &&
    app.roles.all (distinctNames isValueName)

/-- `structural(input)`. -/
def AppSpec.conforms (spec : AppSpec) : Bool :=
  spec.app.conforms && spec.entities ≠ [] && spec.entities.all EntityDef.conforms &&
    (spec.pages.getD []).all PageDef.conforms && (spec.workflows.getD []).all WorkflowDef.conforms &&
    ((spec.policies.getD []).all fun policy => isKebabName policy.name) &&
    (spec.agents.getD []).all AgentTaskDef.conforms &&
    (spec.evidence.getD []).all fun hook => isKebabName hook.name

end OpenRupiv.Spec
