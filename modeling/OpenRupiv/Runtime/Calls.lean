import OpenRupiv.Runtime.Entities

/-!
# Calls

The requests that change records: transitions, `POST` and `PUT`.  Every client makes one call, on
connections of its own.
-/

namespace OpenRupiv.Runtime

open Js Lib Spec

inductive Call where
  | transition (i : ExecuteTransitionInput)
  | create (r : EntityRequest)
  | update (r : EntityRequest)

variable {pg : Postgres} {Client : Type}

def handle (host : Host) (sha256 : String → String) : Call → Async pg Thrown Response
  | .transition i => do
      let outcome ← executeTransition host sha256 i
      return .outcome outcome
  | .create r => post host sha256 r
  | .update r => put host sha256 r

/-- A call from its arrival to its answer. -/
def serve (host : Host) (sha256 : String → String) (call : Call) : Async pg Thrown Unit := do
  ext .invoked
  let answer ← (handle host sha256 call : Async pg Thrown Response).result
  ext (.returned answer)

/-- The database with the clients that are about to make their calls. -/
def server (pg : Postgres) (host : Host) (sha256 : String → String) (calls : Client → Call)
    (contents : Contents) : World (store pg) Client Thrown Unit :=
  .start (fun c => serve host sha256 (calls c)) contents

/-- The routes of a spec: entities with their models, workflows with their transitions. -/
inductive Call.Routed (spec : AppSpec) : Call → Prop where
  | transition {entity : EntityDef} {workflow : WorkflowDef} {transition : TransitionDef}
      {recordId : String} {user : User} :
      workflow ∈ spec.workflows.getD [] →
      spec.entities.find? (fun e => e.name = workflow.entity) = some entity →
      transition ∈ workflow.transitions → isUuid (ofString recordId) = true →
      Call.Routed spec (.transition
        { model := buildEntityModel spec entity, workflow, transition, recordId, user })
  | create {entity : EntityDef} {body : Option Json} {source : BodySource} {session : Option User}
      {recordId : String} :
      entity ∈ spec.entities →
      Call.Routed spec (.create
        { model := buildEntityModel spec entity
          detailPage := pageFor spec entity.name .detail
          listPage := pageFor spec entity.name .list
          body, source, session, recordId })
  | update {entity : EntityDef} {body : Option Json} {source : BodySource} {session : Option User}
      {recordId : String} :
      entity ∈ spec.entities →
      Call.Routed spec (.update
        { model := buildEntityModel spec entity
          detailPage := pageFor spec entity.name .detail
          listPage := pageFor spec entity.name .list
          body, source, session, recordId })

def vendor : EntityDef where
  name := "Vendor"
  fields :=
    [{ name := "name", type := .string, required := some true },
      { name := "status", type := .enum, values := some ["draft", "approved"] },
      { name := "risk", type := .enum, values := some ["open", "closed"] }]

/-- Two people approve a vendor. -/
def approve : TransitionDef where
  name := "approve"
  «from» := "draft"
  «to» := "approved"
  approval := some { count := 2 }

/-- Its risk is closed by anyone. -/
def close : TransitionDef where
  name := "close"
  «from» := "open"
  «to» := "closed"

def vendorApproval : WorkflowDef where
  name := "vendor-approval"
  entity := "Vendor"
  stateField := "status"
  initial := "draft"
  transitions := [approve]

def riskReview : WorkflowDef where
  name := "risk-review"
  entity := "Vendor"
  stateField := "risk"
  initial := "open"
  transitions := [close]

def vendors (workflows : List WorkflowDef) : AppSpec where
  specVersion := .v0_1
  app := { name := "Vendors", slug := "vendors", version := "1.0.0" }
  entities := [vendor]
  workflows := some workflows

def vendorApp : AppSpec := vendors [vendorApproval, riskReview]

/-- No text is a date or a number. -/
def plainHost : Host where
  dateParse _ := none
  toNumber _ := none

/-- A database in which every text is an id. -/
def anyId : Postgres := { postgresText with uuid := some }

def vendorId : Uuid := "6f9619ff-8b86-4011-b42d-00cf4fc964ff"

/-- Nothing fails, and everyone is allowed everything. -/
def untroubled : Choice where
  fails := false
  id := vendorId
  now := 0
  clock := Rfc3339.newYear 2026 Rfc3339.year2026_le
  decision := some { allow := true, reason := [], policyId := [] }

def createVendor (spec : AppSpec) : EntityRequest where
  model := buildEntityModel spec vendor
  detailPage := none
  listPage := none
  body := some (.obj [(ofString "name", .scalar (.str (ofString "Acme")))])
  source := .json
  session := none
  recordId := ""

/-- A user fires a transition on the vendor. -/
def fire (workflow : WorkflowDef) (transition : TransitionDef) (sub : String) :
    ExecuteTransitionInput where
  model := buildEntityModel vendorApp vendor
  workflow
  transition
  recordId := vendorId
  user := { sub, roles := [] }

/-- The row that is inserted for the vendor. -/
def draftVendor : Row :=
  setAll (postgresText.newRow "vendor" vendorId 0)
    [("status", .str (ofString "draft")), ("risk", .str (ofString "open")),
      ("name", .str (ofString "Acme"))]

def noVendor : Contents := { rows := fun _ _ => none, approvals := [], audit := [] }

def oneVendor : Contents := noVendor.setRow "vendor" vendorId (some draftVendor)

/-- A single call, with these choices of the environment. -/
def alone (init : Contents) (call : Call) (choices : List Choice) :
    Option (World (store postgresText) Unit Thrown Unit) :=
  World.run (choices.map fun choice => ((), choice))
    (server postgresText plainHost id (fun _ => call) init)

end OpenRupiv.Runtime
