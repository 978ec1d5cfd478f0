import OpenRupiv.Js.Number

/-!
# App specs

`packages/spec/src/types.ts`: entities with their fields, workflows with guards and n-eyes approval
rules, pages and agent tasks.  Descriptions that nothing reads are left out.
-/

namespace OpenRupiv.Spec

open Js

inductive FieldType where
  | string
  | text
  | number
  | boolean
  | date
  | datetime
  | enum
  | reference
  deriving DecidableEq

def FieldType.print : FieldType → String
  | .string => "string"
  | .text => "text"
  | .number => "number"
  | .boolean => "boolean"
  | .date => "date"
  | .datetime => "datetime"
  | .enum => "enum"
  | .reference => "reference"

/-- `string | number | boolean`. -/
inductive Literal where
  | str (s : String)
  | num (n : Num)
  | bool (b : Bool)
  deriving DecidableEq

structure FieldDef where
  name : String
  type : FieldType
  required : Option Bool := none
  unique : Option Bool := none
  values : Option (List String) := none
  entity : Option String := none
  default : Option Literal := none
  deriving DecidableEq

structure RelationDef where
  name : String
  «to» : String
  deriving DecidableEq

structure EntityDef where
  name : String
  fields : List FieldDef
  relations : Option (List RelationDef) := none
  deriving DecidableEq

inductive PageType where
  | list
  | detail
  | form
  deriving DecidableEq

def PageType.print : PageType → String
  | .list => "list"
  | .detail => "detail"
  | .form => "form"

structure PageDef where
  name : String
  type : PageType
  entity : String
  title : Option String := none
  fields : Option (List String) := none
  deriving DecidableEq

inductive PredicateOp where
  | eq
  | ne
  | gt
  | gte
  | lt
  | lte
  | set
  | notSet
  deriving DecidableEq

def PredicateOp.text : PredicateOp → String
  | .eq => "eq"
  | .ne => "ne"
  | .gt => "gt"
  | .gte => "gte"
  | .lt => "lt"
  | .lte => "lte"
  | .set => "set"
  | .notSet => "notSet"

structure FieldPredicate where
  field : String
  op : PredicateOp
  value : Option Literal := none
  deriving DecidableEq

structure TransitionGuard where
  roles : Option (List String) := none
  require : Option (List FieldPredicate) := none
  deriving DecidableEq

/-- The transition completes only after `count` approvals from distinct users. -/
structure ApprovalRule where
  count : Nat
  roles : Option (List String) := none
  deriving DecidableEq

structure TransitionDef where
  name : String
  «from» : String
  «to» : String
  guard : Option TransitionGuard := none
  approval : Option ApprovalRule := none
  deriving DecidableEq

structure WorkflowDef where
  name : String
  entity : String
  stateField : String
  initial : String
  transitions : List TransitionDef
  deriving DecidableEq

structure PolicyDef where
  name : String
  rego : Option String := none
  deriving DecidableEq

structure AgentProposalRef where
  workflow : String
  transition : String
  deriving DecidableEq

/-- A governed agent task: the tools it may call and the transitions it may propose. -/
structure AgentTaskDef where
  name : String
  tools : Option (List String) := none
  proposes : Option (List AgentProposalRef) := none
  deriving DecidableEq

structure EvidenceHookDef where
  name : String
  deriving DecidableEq

structure AppMeta where
  name : String
  slug : String
  description : Option String := none
  version : String
  roles : Option (List String) := none
  deriving DecidableEq

inductive SpecVersion where
  | v0_1
  | v0_2
  deriving DecidableEq

def SpecVersion.text : SpecVersion → String
  | .v0_1 => "0.1"
  | .v0_2 => "0.2"

structure AppSpec where
  specVersion : SpecVersion
  app : AppMeta
  entities : List EntityDef
  pages : Option (List PageDef) := none
  workflows : Option (List WorkflowDef) := none
  policies : Option (List PolicyDef) := none
  agents : Option (List AgentTaskDef) := none
  evidence : Option (List EvidenceHookDef) := none
  deriving DecidableEq

end OpenRupiv.Spec
