import OpenRupiv.Js.Stringify
import OpenRupiv.Spec.Schema

/-!
# The semantic pass of `validateSpec`

`packages/spec/src/validate.ts`: the cross-references that the schema cannot express.
-/

namespace OpenRupiv.Spec

open Js

inductive SpecErrorCode where
  | ERR_SPEC_VERSION
  | ERR_SCHEMA
  | ERR_DUPLICATE_NAME
  | ERR_UNKNOWN_ENTITY
  | ERR_UNKNOWN_FIELD
  | ERR_BAD_REFERENCE
  | ERR_BAD_ENUM
  | ERR_BAD_DEFAULT
  | ERR_BAD_PREDICATE
  | ERR_WORKFLOW_STATE_FIELD
  | ERR_WORKFLOW_STATE
  | ERR_UNKNOWN_ROLE
  | ERR_AGENTS_REQUIRE_V0_2
  | ERR_UNKNOWN_WORKFLOW
  | ERR_UNKNOWN_TRANSITION
  | ERR_AGENT_PROPOSAL_UNGATED
  deriving DecidableEq

structure SpecError where
  code : SpecErrorCode
  /-- A JSON Pointer. -/
  path : String
  message : Text
  deriving DecidableEq

variable {α ε : Type}

/-- `JSON.stringify` of a name. -/
def quoted (s : String) : Text := jsonText (ofString s)

/-- `…/index`. -/
def item (path : String) (index : Nat) : String := path ++ "/" ++ toString index

/-- The loop over `items.entries()`, with the items seen before. -/
def entries (items : List α) (errors : Nat → List α → α → List ε) : List ε :=
  items.zipIdx.flatMap fun x => errors x.2 (items.take x.2) x.1

theorem mem_entries {items : List α} {errors : Nat → List α → α → List ε} {e : ε} :
    e ∈ entries items errors ↔
      ∃ before x after, items = before ++ x :: after ∧ e ∈ errors before.length before x := by
  simp only [entries, List.mem_flatMap, Prod.exists]
  constructor
  · rintro ⟨x, i, hmem, he⟩
    obtain ⟨hi, hx⟩ := List.getElem?_eq_some_iff.mp (List.mem_zipIdx_iff_getElem?.mp hmem)
    dsimp only at hi hx
    have hlen : (items.take i).length = i := List.length_take_of_le hi.le
    refine ⟨items.take i, x, items.drop (i + 1), ?_, by rwa [hlen]⟩
    rw [← hx, List.cons_getElem_drop_succ, List.take_append_drop]
  · rintro ⟨before, x, after, hitems, he⟩
    refine ⟨x, before.length, ?_, ?_⟩
    · rw [List.mem_zipIdx_iff_getElem?, hitems]
      simp
    · rwa [hitems, List.take_left]

theorem entries_eq_nil_iff {items : List α} {errors : Nat → List α → α → List ε} :
    entries items errors = [] ↔
      ∀ before x after, items = before ++ x :: after → errors before.length before x = [] := by
  simp only [List.eq_nil_iff_forall_not_mem, mem_entries, not_exists, not_and]
  constructor
  · intro h before x after hitems e
    exact h e before x after hitems
  · intro h e before x after hitems
    exact h before x after hitems e

/-- When no item repeats a name of the items before it, the names are distinct. -/
theorem nodup_of_entries {β : Type} {items : List α} (name : α → β)
    (h : ∀ before x after, items = before ++ x :: after → name x ∉ before.map name) :
    (items.map name).Nodup := by
  induction items using List.reverseRecOn with
  | nil => exact List.nodup_nil
  | append_singleton items x ih =>
    rw [List.map_append, List.map_singleton, List.nodup_append]
    refine ⟨?_, List.nodup_singleton _, ?_⟩
    · apply ih
      intro before y after hitems
      apply h before y (after ++ [x])
      rw [hitems, List.append_assoc, List.cons_append]
    · intro a ha b hb hab
      rw [List.mem_singleton] at hb
      rw [hab, hb] at ha
      exact h items x [] rfl ha

def errorIf (condition : Bool) (code : SpecErrorCode) (path : String) (message : Text) :
    List SpecError :=
  if condition then [⟨code, path, message⟩] else []

@[simp] theorem errorIf_eq_nil_iff {condition : Bool} {code : SpecErrorCode} {path : String}
    {message : Text} : errorIf condition code path message = [] ↔ condition = false := by
  cases condition <;> simp [errorIf]

/-- `map.get(name)` of a map that keeps the first entry of a name. -/
def AppSpec.entityByName (spec : AppSpec) (name : String) : Option EntityDef :=
  spec.entities.find? fun e => e.name = name

/-- `new Map(entity.fields.map((f) => [f.name, f])).get(name)`: the last entry wins. -/
def EntityDef.fieldByName (entity : EntityDef) (name : String) : Option FieldDef :=
  entity.fields.reverse.find? fun f => f.name = name

def AppSpec.hasEntity (spec : AppSpec) (name : String) : Bool := (spec.entityByName name).isSome

def AppSpec.checkRoles (spec : AppSpec) (names : List String) (path : String) : List SpecError :=
  entries names fun i _ role =>
    errorIf (role ∉ spec.app.roles.getD []) .ERR_UNKNOWN_ROLE (item path i)
      (ofString "role " ++ quoted role ++ ofString " is not declared in app.roles")

def checkEntityName (i : Nat) (before : List EntityDef) (entity : EntityDef) : List SpecError :=
  errorIf (entity.name ∈ before.map (·.name)) .ERR_DUPLICATE_NAME (item "/entities" i ++ "/name")
    (ofString "duplicate entity name " ++ quoted entity.name)

def checkValues (path : String) (field : FieldDef) : List SpecError :=
  if field.type = .enum then
    errorIf field.values.isNone .ERR_BAD_ENUM path
      (ofString "enum field " ++ quoted field.name ++ ofString " must declare values")
  else
    errorIf field.values.isSome .ERR_BAD_ENUM (path ++ "/values")
      (ofString "field " ++ quoted field.name ++
        ofString (" of type " ++ field.type.print ++ " must not declare values"))

/-- `!field.entity` holds of the empty string too. -/
def FieldDef.target (field : FieldDef) : Option String := field.entity.filter (· ≠ "")

def AppSpec.checkReference (spec : AppSpec) (path : String) (field : FieldDef) : List SpecError :=
  if field.type = .reference then
    match field.target with
    | none =>
        [⟨.ERR_BAD_REFERENCE, path, ofString "reference field " ++ quoted field.name ++
          ofString " must declare a target entity"⟩]
    | some target =>
        errorIf (!spec.hasEntity target) .ERR_BAD_REFERENCE (path ++ "/entity")
          (ofString "reference field " ++ quoted field.name ++ ofString " targets unknown entity " ++
            quoted target)
  else
    errorIf field.target.isSome .ERR_BAD_REFERENCE (path ++ "/entity")
      (ofString "field " ++ quoted field.name ++
        ofString (" of type " ++ field.type.print ++ " must not declare a target entity"))

def checkDefault (path : String) (field : FieldDef) : List SpecError :=
  match field.default with
  | none => []
  | some value =>
      match field.type, value with
      | .string, .str _ | .text, .str _ | .number, .num _ | .boolean, .bool _ => []
      | .enum, .str s =>
          errorIf (s ∉ field.values.getD []) .ERR_BAD_DEFAULT path
            (ofString "default for enum field must be one of its values")
      | .string, _ | .text, _ =>
          [⟨.ERR_BAD_DEFAULT, path,
            ofString ("default for " ++ field.type.print ++ " field must be a string")⟩]
      | .number, _ => [⟨.ERR_BAD_DEFAULT, path, ofString "default for number field must be a number"⟩]
      | .boolean, _ =>
          [⟨.ERR_BAD_DEFAULT, path, ofString "default for boolean field must be a boolean"⟩]
      | .enum, _ =>
          [⟨.ERR_BAD_DEFAULT, path, ofString "default for enum field must be one of its values"⟩]
      | .date, _ | .datetime, _ | .reference, _ =>
          [⟨.ERR_BAD_DEFAULT, path,
            ofString ("defaults are not allowed on " ++ field.type.print ++ " fields in spec v0.1")⟩]

def duplicateMember (path name entity : String) : SpecError :=
  ⟨.ERR_DUPLICATE_NAME, path ++ "/name",
    ofString "duplicate member name " ++ quoted name ++ ofString (" on entity " ++ entity)⟩

def AppSpec.checkField (spec : AppSpec) (entity : EntityDef) (path : String) (before : List FieldDef)
    (field : FieldDef) : List SpecError :=
  (if field.name ∈ before.map (·.name) then [duplicateMember path field.name entity.name] else []) ++
    checkValues path field ++ spec.checkReference path field ++ checkDefault (path ++ "/default") field

def AppSpec.checkRelation (spec : AppSpec) (entity : EntityDef) (path : String)
    (before : List RelationDef) (relation : RelationDef) : List SpecError :=
  (if relation.name ∈ entity.fields.map (·.name) ++ before.map (·.name) then
    [duplicateMember path relation.name entity.name] else []) ++
  errorIf (!spec.hasEntity relation.to) .ERR_UNKNOWN_ENTITY (path ++ "/to")
    (ofString "relation " ++ quoted relation.name ++ ofString " targets unknown entity " ++
      quoted relation.to)

def AppSpec.checkEntity (spec : AppSpec) (i : Nat) (entity : EntityDef) : List SpecError :=
  entries entity.fields (fun j before field =>
    spec.checkField entity (item (item "/entities" i ++ "/fields") j) before field) ++
  entries (entity.relations.getD []) fun j before relation =>
    spec.checkRelation entity (item (item "/entities" i ++ "/relations") j) before relation

def AppSpec.checkPage (spec : AppSpec) (path : String) (before : List PageDef) (page : PageDef) :
    List SpecError :=
  errorIf (page.name ∈ before.map (·.name)) .ERR_DUPLICATE_NAME (path ++ "/name")
    (ofString "duplicate page name " ++ quoted page.name) ++
  match spec.entityByName page.entity with
  | none =>
      [⟨.ERR_UNKNOWN_ENTITY, path ++ "/entity", ofString "page " ++ quoted page.name ++
        ofString " is bound to unknown entity " ++ quoted page.entity⟩]
  | some entity =>
      entries (page.fields.getD []) fun j _ name =>
        errorIf (name ∉ entity.fields.map (·.name)) .ERR_UNKNOWN_FIELD (item (path ++ "/fields") j)
          (ofString "page " ++ quoted page.name ++ ofString " selects unknown field " ++ quoted name ++
            ofString (" on entity " ++ page.entity))

/-- `COMPARISON_OPS.has(op)`. -/
def PredicateOp.isComparison : PredicateOp → Bool
  | .gt | .gte | .lt | .lte => true
  | _ => false

/-- `ORDERED_FIELD_TYPES.has(type)`. -/
def FieldType.isOrdered : FieldType → Bool
  | .number | .date | .datetime => true
  | _ => false

/-- `value must be one of ${JSON.stringify(field.values)}`. -/
def notOneOf (field : FieldDef) : Text :=
  ofString "value must be one of " ++ field.values.elim (ofString "undefined") jsonTexts

def checkPredicateValue (path : String) (field : FieldDef) (value : Literal) : List SpecError :=
  match field.type, value with
  | .enum, .str s =>
      errorIf (s ∉ field.values.getD []) .ERR_BAD_PREDICATE path (notOneOf field)
  | .enum, _ => [⟨.ERR_BAD_PREDICATE, path, notOneOf field⟩]
  | .boolean, .bool _ | .number, .num _ => []
  | .boolean, _ => [⟨.ERR_BAD_PREDICATE, path, ofString "value must be a boolean"⟩]
  | .number, _ => [⟨.ERR_BAD_PREDICATE, path, ofString "value must be a number"⟩]
  | .string, .str _ | .text, .str _ | .date, .str _ | .datetime, .str _ | .reference, _ => []
  | .string, _ | .text, _ | .date, _ | .datetime, _ =>
      [⟨.ERR_BAD_PREDICATE, path,
        ofString ("value must be a string for " ++ field.type.print ++ " fields")⟩]

def checkPredicate (entity : EntityDef) (path : String) (predicate : FieldPredicate) :
    List SpecError :=
  match entity.fieldByName predicate.field with
  | none =>
      [⟨.ERR_UNKNOWN_FIELD, path ++ "/field",
        ofString "predicate references unknown field " ++ quoted predicate.field⟩]
  | some field =>
      if field.type = .reference then
        [⟨.ERR_BAD_PREDICATE, path,
          ofString "predicates on reference fields are not supported in spec v0.1"⟩]
      else if predicate.op = .set ∨ predicate.op = .notSet then
        errorIf predicate.value.isSome .ERR_BAD_PREDICATE (path ++ "/value")
          (ofString "op " ++ quoted predicate.op.text ++ ofString " must not carry a value")
      else
        match predicate.value with
        | none =>
            [⟨.ERR_BAD_PREDICATE, path,
              ofString "op " ++ quoted predicate.op.text ++ ofString " requires a value"⟩]
        | some value =>
            if predicate.op.isComparison ∧ ¬field.type.isOrdered then
              [⟨.ERR_BAD_PREDICATE, path ++ "/op",
                ofString "op " ++ quoted predicate.op.text ++
                  ofString " requires a number, date, or datetime field; " ++ quoted predicate.field ++
                  ofString (" is " ++ field.type.print)⟩]
            else checkPredicateValue (path ++ "/value") field value

/-- The states of a transition; `side` is `from` or `to`. -/
def checkState (workflow : WorkflowDef) (states : List String) (path side : String)
    (transition : TransitionDef) (state : String) : List SpecError :=
  errorIf (state ∉ states) .ERR_WORKFLOW_STATE (path ++ "/" ++ side)
    (ofString "transition " ++ quoted transition.name ++ ofString (" " ++ side ++ " state ") ++
      quoted state ++
      ofString (" is not a value of " ++ workflow.entity ++ "." ++ workflow.stateField))

def AppSpec.checkTransition (spec : AppSpec) (workflow : WorkflowDef) (entity : EntityDef)
    (states : List String) (path : String) (before : List TransitionDef)
    (transition : TransitionDef) : List SpecError :=
  errorIf (transition.name ∈ before.map (·.name)) .ERR_DUPLICATE_NAME (path ++ "/name")
    (ofString "duplicate transition name " ++ quoted transition.name ++
      ofString (" in workflow " ++ workflow.name)) ++
  checkState workflow states path "from" transition transition.from ++
  checkState workflow states path "to" transition transition.to ++
  spec.checkRoles ((transition.guard.bind (·.roles)).getD []) (path ++ "/guard/roles") ++
  entries ((transition.guard.bind (·.require)).getD []) (fun k _ predicate =>
    checkPredicate entity (item (path ++ "/guard/require") k) predicate) ++
  spec.checkRoles ((transition.approval.bind (·.roles)).getD []) (path ++ "/approval/roles")

/-- The values of a state field: it has to be an enum. -/
def EntityDef.states (entity : EntityDef) (stateField : String) : Option (List String) :=
  (entity.fieldByName stateField).bind fun field => if field.type = .enum then field.values else none

def AppSpec.checkWorkflow (spec : AppSpec) (path : String) (before : List WorkflowDef)
    (workflow : WorkflowDef) : List SpecError :=
  errorIf (workflow.name ∈ before.map (·.name)) .ERR_DUPLICATE_NAME (path ++ "/name")
    (ofString "duplicate workflow name " ++ quoted workflow.name) ++
  match spec.entityByName workflow.entity with
  | none =>
      [⟨.ERR_UNKNOWN_ENTITY, path ++ "/entity", ofString "workflow " ++ quoted workflow.name ++
        ofString " is bound to unknown entity " ++ quoted workflow.entity⟩]
  | some entity =>
      match entity.states workflow.stateField with
      | none =>
          [⟨.ERR_WORKFLOW_STATE_FIELD, path ++ "/stateField",
            ofString "workflow " ++ quoted workflow.name ++ ofString " stateField " ++
              quoted workflow.stateField ++
              ofString (" must be an enum field on entity " ++ workflow.entity)⟩]
      | some states =>
          errorIf (workflow.initial ∉ states) .ERR_WORKFLOW_STATE (path ++ "/initial")
            (ofString "initial state " ++ quoted workflow.initial ++
              ofString (" is not a value of " ++ workflow.entity ++ "." ++ workflow.stateField)) ++
          entries workflow.transitions fun j before transition =>
            spec.checkTransition workflow entity states (item (path ++ "/transitions") j) before
              transition

def AppSpec.checkProposal (spec : AppSpec) (path : String) (task : AgentTaskDef)
    (ref : AgentProposalRef) : List SpecError :=
  match (spec.workflows.getD []).find? fun w => w.name = ref.workflow with
  | none =>
      [⟨.ERR_UNKNOWN_WORKFLOW, path ++ "/workflow", ofString "agent task " ++ quoted task.name ++
        ofString " proposes an unknown workflow " ++ quoted ref.workflow⟩]
  | some workflow =>
      match workflow.transitions.find? fun t => t.name = ref.transition with
      | none =>
          [⟨.ERR_UNKNOWN_TRANSITION, path ++ "/transition", ofString "agent task " ++
            quoted task.name ++ ofString " proposes unknown transition " ++ quoted ref.transition ++
            ofString " in workflow " ++ quoted ref.workflow⟩]
      | some transition =>
          errorIf transition.approval.isNone .ERR_AGENT_PROPOSAL_UNGATED path
            (ofString "agent task " ++ quoted task.name ++ ofString " proposes transition " ++
              quoted ref.transition ++ ofString
                ", which has no approval rule; agents may only propose human-gated transitions")

def AppSpec.checkAgent (spec : AppSpec) (path : String) (before : List AgentTaskDef)
    (task : AgentTaskDef) : List SpecError :=
  errorIf (task.name ∈ before.map (·.name)) .ERR_DUPLICATE_NAME (path ++ "/name")
    (ofString "duplicate agent task name " ++ quoted task.name) ++
  entries (task.proposes.getD []) fun j _ ref =>
    spec.checkProposal (item (path ++ "/proposes") j) task ref

def AppSpec.checkVersion (spec : AppSpec) : List SpecError :=
  errorIf (spec.agents.getD [] ≠ [] ∧ spec.specVersion ≠ .v0_2) .ERR_AGENTS_REQUIRE_V0_2 "/agents"
    (ofString "non-empty agents array requires specVersion \"0.2\" (got " ++
      quoted spec.specVersion.text ++ ofString ")")

/-- The errors of the semantic pass, in the order in which they are found. -/
def AppSpec.semanticErrors (spec : AppSpec) : List SpecError :=
  entries spec.entities checkEntityName ++
  entries spec.entities (fun i _ entity => spec.checkEntity i entity) ++
  entries (spec.pages.getD []) (fun i => spec.checkPage (item "/pages" i)) ++
  entries (spec.workflows.getD []) (fun i => spec.checkWorkflow (item "/workflows" i)) ++
  entries (spec.agents.getD []) (fun i => spec.checkAgent (item "/agents" i)) ++
  spec.checkVersion

/-- `validateSpec(spec).ok`: the structural pass, then the semantic pass. -/
def AppSpec.valid (spec : AppSpec) : Bool := spec.conforms && spec.semanticErrors = []

end OpenRupiv.Spec
