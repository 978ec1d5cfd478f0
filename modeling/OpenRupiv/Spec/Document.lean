import OpenRupiv.Js.Print
import OpenRupiv.Spec.Validate

/-!
# Documents

`validateSpec` gets a value of `JSON.parse`.  `decode` reads it as a spec and fails on what has other
types or members than the schema asks for; `AppSpec.conforms` is the rest of the structural pass.
-/

namespace OpenRupiv.Spec

open Js

variable {α : Type}

/-- The scalar values of a text, U+FFFD for a lone surrogate. -/
def scalarValues : Text → List Char
  | [] => []
  | [u] => [if isHigh u || isLow u then Char.ofNat 0xFFFD else Char.ofNat u.toNat]
  | u :: v :: rest =>
      if isHigh u then
        if isLow v then Char.ofNat (pairCode u v) :: scalarValues rest
        else Char.ofNat 0xFFFD :: scalarValues (v :: rest)
      else if isLow u then Char.ofNat 0xFFFD :: scalarValues (v :: rest)
      else Char.ofNat u.toNat :: scalarValues (v :: rest)

/-- A text that may be anything. -/
def decodeFree : Json → Option String
  | .scalar (.str t) => some (String.ofList (scalarValues t))
  | _ => none

/-- A text that has to match a pattern: no pattern allows a lone surrogate. -/
def decodeName : Json → Option String
  | .scalar (.str t) => if wellFormed t then some (String.ofList (scalarValues t)) else none
  | _ => none

def decodeBool : Json → Option Bool
  | .scalar (.bool b) => some b
  | _ => none

def decodeLiteral : Json → Option Literal
  | .scalar (.str t) => some (.str (String.ofList (scalarValues t)))
  | .scalar (.num n) => some (.num n)
  | .scalar (.bool b) => some (.bool b)
  | _ => none

/-- `Number.isInteger`, of a number that is not negative. -/
def natOfNum : Num → Option Nat
  | .zero _ => some 0
  | .finite d =>
      if d.neg = false ∧ d.digits.length ≤ d.point then
        some (number (digitsValue d.digits * 10 ^ (d.point - d.digits.length).toNat : Nat)).toNat
      else none
  | .infinite _ => none

def decodeCount : Json → Option Nat
  | .scalar (.num n) => natOfNum n
  | _ => none

/-- A member of an enumeration, by what it is printed as. -/
def decodeOneOf (print : α → String) (values : List α) (v : Json) : Option α :=
  (decodeName v).bind fun s => values.find? fun x => print x = s

def decodeArray (decode : Json → Option α) : Json → Option (List α)
  | .arr items => items.mapM decode
  | _ => none

def membersOf (allowed : List String) : Json → Option (List (Text × Json))
  | .obj ms => if (keysOf ms).all (· ∈ allowed.map ofString) then some ms else none
  | _ => none

def required (ms : List (Text × Json)) (key : String) (decode : Json → Option α) : Option α :=
  (ms.lookup (ofString key)).bind decode

def optional (ms : List (Text × Json)) (key : String) (decode : Json → Option α) :
    Option (Option α) :=
  match ms.lookup (ofString key) with
  | none => some none
  | some v => (decode v).map some

def decodeNames : Json → Option (List String) := decodeArray decodeName

def decodeFieldType : Json → Option FieldType :=
  decodeOneOf FieldType.print
    [.string, .text, .number, .boolean, .date, .datetime, .enum, .reference]

def decodeField (v : Json) : Option FieldDef := do
  let ms ← membersOf ["name", "type", "required", "unique", "values", "entity", "default"] v
  let name ← required ms "name" decodeName
  let type ← required ms "type" decodeFieldType
  let isRequired ← optional ms "required" decodeBool
  let unique ← optional ms "unique" decodeBool
  let values ← optional ms "values" decodeNames
  let entity ← optional ms "entity" decodeName
  let default ← optional ms "default" decodeLiteral
  return ⟨name, type, isRequired, unique, values, entity, default⟩

def decodeRelation (v : Json) : Option RelationDef := do
  let ms ← membersOf ["name", "kind", "to"] v
  let name ← required ms "name" decodeName
  let _ ← required ms "kind" (decodeOneOf id ["manyToMany"])
  let target ← required ms "to" decodeName
  return ⟨name, target⟩

def decodeEntity (v : Json) : Option EntityDef := do
  let ms ← membersOf ["name", "description", "fields", "relations"] v
  let name ← required ms "name" decodeName
  let _ ← optional ms "description" decodeFree
  let fields ← required ms "fields" (decodeArray decodeField)
  let relations ← optional ms "relations" (decodeArray decodeRelation)
  return ⟨name, fields, relations⟩

def decodePage (v : Json) : Option PageDef := do
  let ms ← membersOf ["name", "type", "entity", "title", "fields"] v
  let name ← required ms "name" decodeName
  let type ← required ms "type" (decodeOneOf PageType.print [.list, .detail, .form])
  let entity ← required ms "entity" decodeName
  let title ← optional ms "title" decodeFree
  let fields ← optional ms "fields" decodeNames
  return ⟨name, type, entity, title, fields⟩

def decodePredicate (v : Json) : Option FieldPredicate := do
  let ms ← membersOf ["field", "op", "value"] v
  let field ← required ms "field" decodeName
  let op ← required ms "op"
    (decodeOneOf PredicateOp.text [.eq, .ne, .gt, .gte, .lt, .lte, .set, .notSet])
  let value ← optional ms "value" decodeLiteral
  return ⟨field, op, value⟩

def decodeGuard (v : Json) : Option TransitionGuard := do
  let ms ← membersOf ["roles", "require"] v
  let roles ← optional ms "roles" decodeNames
  let require ← optional ms "require" (decodeArray decodePredicate)
  return ⟨roles, require⟩

def decodeApproval (v : Json) : Option ApprovalRule := do
  let ms ← membersOf ["count", "roles"] v
  let count ← required ms "count" decodeCount
  let roles ← optional ms "roles" decodeNames
  return ⟨count, roles⟩

def decodeTransition (v : Json) : Option TransitionDef := do
  let ms ← membersOf ["name", "from", "to", "guard", "approval"] v
  let name ← required ms "name" decodeName
  let source ← required ms "from" decodeName
  let target ← required ms "to" decodeName
  let guard ← optional ms "guard" decodeGuard
  let approval ← optional ms "approval" decodeApproval
  return ⟨name, source, target, guard, approval⟩

def decodeWorkflow (v : Json) : Option WorkflowDef := do
  let ms ← membersOf ["name", "entity", "stateField", "initial", "transitions"] v
  let name ← required ms "name" decodeName
  let entity ← required ms "entity" decodeName
  let stateField ← required ms "stateField" decodeName
  let initial ← required ms "initial" decodeName
  let transitions ← required ms "transitions" (decodeArray decodeTransition)
  return ⟨name, entity, stateField, initial, transitions⟩

def decodePolicy (v : Json) : Option PolicyDef := do
  let ms ← membersOf ["name", "description", "rego"] v
  let name ← required ms "name" decodeName
  let _ ← optional ms "description" decodeFree
  let rego ← optional ms "rego" decodeFree
  return ⟨name, rego⟩

def decodeProposalRef (v : Json) : Option AgentProposalRef := do
  let ms ← membersOf ["workflow", "transition"] v
  let workflow ← required ms "workflow" decodeName
  let transition ← required ms "transition" decodeName
  return ⟨workflow, transition⟩

def decodeAgentTask (v : Json) : Option AgentTaskDef := do
  let ms ← membersOf ["name", "description", "tools", "proposes"] v
  let name ← required ms "name" decodeName
  let _ ← optional ms "description" decodeFree
  let tools ← optional ms "tools" decodeNames
  let proposes ← optional ms "proposes" (decodeArray decodeProposalRef)
  return ⟨name, tools, proposes⟩

def decodeEvidenceHook (v : Json) : Option EvidenceHookDef := do
  let ms ← membersOf ["name", "description"] v
  let name ← required ms "name" decodeName
  let _ ← optional ms "description" decodeFree
  return ⟨name⟩

def decodeApp (v : Json) : Option AppMeta := do
  let ms ← membersOf ["name", "slug", "description", "version", "roles"] v
  let name ← required ms "name" decodeFree
  let slug ← required ms "slug" decodeName
  let description ← optional ms "description" decodeFree
  let version ← required ms "version" decodeName
  let roles ← optional ms "roles" decodeNames
  return ⟨name, slug, description, version, roles⟩

def decodeSpecVersion : Json → Option SpecVersion := decodeOneOf SpecVersion.text [.v0_1, .v0_2]

def decodeSpec (v : Json) : Option AppSpec := do
  let ms ← membersOf ["specVersion", "app", "entities", "pages", "workflows", "policies", "agents",
    "evidence"] v
  let specVersion ← required ms "specVersion" decodeSpecVersion
  let app ← required ms "app" decodeApp
  let entities ← required ms "entities" (decodeArray decodeEntity)
  let pages ← optional ms "pages" (decodeArray decodePage)
  let workflows ← optional ms "workflows" (decodeArray decodeWorkflow)
  let policies ← optional ms "policies" (decodeArray decodePolicy)
  let agents ← optional ms "agents" (decodeArray decodeAgentTask)
  let evidence ← optional ms "evidence" (decodeArray decodeEvidenceHook)
  return ⟨specVersion, app, entities, pages, workflows, policies, agents, evidence⟩

/-- The `specVersion` of an object, when it is one of those supported. -/
def supportedVersion (ms : List (Text × Json)) : Option SpecVersion :=
  required ms "specVersion" decodeSpecVersion

def unsupportedVersion (version : Option Json) : SpecError where
  code := .ERR_SPEC_VERSION
  path := "/specVersion"
  message := ofString "unsupported specVersion " ++
    version.elim (ofString "undefined") stringifyText ++
    ofString "; this validator supports \"0.1\" or \"0.2\""

/-- `structural(input)`. -/
def structural (input : Json) : Option AppSpec := (decodeSpec input).filter AppSpec.conforms

/-- `validateSpec`; `schemaErrors` are the errors that ajv reports. -/
def validateSpec (schemaErrors : Json → List SpecError) (input : Json) :
    Except (List SpecError) AppSpec :=
  match input with
  | .obj ms =>
      match supportedVersion ms with
      | none => .error [unsupportedVersion (ms.lookup (ofString "specVersion"))]
      | some _ =>
          match structural input with
          | none => .error (schemaErrors input)
          | some spec => if spec.semanticErrors = [] then .ok spec else .error spec.semanticErrors
  | _ => .error [⟨.ERR_SPEC_VERSION, "", ofString "spec must be a JSON object"⟩]

end OpenRupiv.Spec
