import OpenRupiv.Runtime.Workflows

/-!
# Creating and updating records

The `POST` and `PUT` handlers of `packages/runtime/src/entities.ts`.
-/

namespace OpenRupiv.Runtime

open Js Lib Spec Audit

/-- What the handlers read of a request; `recordId` is the parameter of a `PUT`. -/
structure EntityRequest where
  model : EntityModel
  detailPage : Option PageDef
  listPage : Option PageDef
  body : Option Json
  source : BodySource
  session : Option User
  recordId : String

namespace EntityRequest

variable (r : EntityRequest)

def table : String := r.model.table

/-- `request.body ?? {}`. -/
def input : Json :=
  match r.body with
  | none | some (.scalar .null) => .obj []
  | some v => v

def validated (host : Host) (mode : Mode) : Except RuntimeError (List (String × Scalar)) :=
  validateBody host r.model r.input mode r.source

/-- The columns of the fields in a map, with their values. -/
def columns (values : List (String × Scalar)) : List (String × Scalar) :=
  values.filterMap fun e => (r.model.fieldByName.lookup e.1).map fun field => (columnFor field, e.2)

/-- The columns of `insertRecord`: the initial states, then the data. -/
def insertColumns (data : List (String × Scalar)) : List (String × Scalar) :=
  r.columns (r.model.stateFields.map fun e => (e.1, .str (ofString e.2))) ++ r.columns data

/-- `workflow.state_write_rejected`. -/
def rejectionRecord (mode : Mode) (error : RuntimeError) : AuditRecordInput where
  event := ofString "workflow.state_write_rejected"
  actor := ofString (r.session.elim "system" (·.sub))
  actorType := if r.session.isSome then .human else .system
  subject := if mode = .update then some (ofString (r.table ++ ":" ++ r.recordId)) else none
  decision := some .deny
  attributes :=
    let members := [(ofString "entityTable", Json.scalar (.str (ofString r.table))),
      (ofString "mode", Json.scalar (.str (ofString mode.print)))]
    match error.details with
    | some (.field field) =>
        some
          { members := members ++ [(ofString "field", .scalar (.str field))]
            distinct := by simp [members, keysOf] }
    | _ => some { members, distinct := by simp [members, keysOf] }

def insertFailed : RuntimeError where
  code := .ERR_INTERNAL
  message := ofString ("insert into " ++ r.table ++ " returned no row")

def notUuid : RuntimeError where
  code := .ERR_VALIDATION
  message := ofString "record id must be a UUID"
  statusCode := 400

def nothingToUpdate : RuntimeError where
  code := .ERR_VALIDATION
  message := ofString "no updatable fields in request body"
  statusCode := 400

def notFound : RuntimeError where
  code := .ERR_NOT_FOUND
  message := ofString (r.model.entity.name ++ " " ++ r.recordId ++ " not found")
  statusCode := 404

/-- Where a form is redirected to. -/
def target (id : SqlValue) : Text :=
  match r.detailPage, r.listPage with
  | some page, _ =>
      ofString ("/p/" ++ page.name ++ "?id=") ++
        match id with
        | .str s => s
        | v => jsonValue (some v)
  | none, some page => ofString ("/p/" ++ page.name)
  | none, none => ofString "/"

def created (row : Row) : Response :=
  let record := rowToRecord r.model row
  if r.source = .form then .redirect (r.target ((record.lookup "id").getD .null))
  else .created record

def requireUuid : Except RuntimeError Unit :=
  if isUuid (ofString r.recordId) then .ok () else .error notUuid

end EntityRequest

def requireData (data : List (String × Scalar)) : Except RuntimeError Unit :=
  if data = [] then .error EntityRequest.nothingToUpdate else .ok ()

def quoteColumns (values : List (String × Scalar)) : Except RuntimeError Unit :=
  values.forM fun e => (quoteIdent e.1).map fun _ => ()

variable {pg : Postgres}

/-- `validateBodyAudited`; a `PUT` hands it the record id. -/
def validateBodyAudited (host : Host) (sha256 : String → String) (r : EntityRequest) (mode : Mode) :
    Async pg Thrown (List (String × Scalar)) :=
  match r.validated host mode with
  | .ok data => return data
  | .error error => do
      if error.code = .ERR_STATE_FIELD_READONLY then
        appendOrFail sha256 (r.rejectionRecord mode error)
      .throw (.runtime error)

def insertRecord (r : EntityRequest) (data : List (String × Scalar)) : Async pg Thrown Row := do
  let columns := r.insertColumns data
  let _ ← check (quoteIdent r.table)
  check (quoteColumns columns)
  let row ← query (.insertRecord r.table columns)
  match row with
  | some row => return row
  | none => .throw (.runtime r.insertFailed)

/-- `POST /api/<entity>`. -/
def post (host : Host) (sha256 : String → String) (r : EntityRequest) : Async pg Thrown Response := do
  let data ← validateBodyAudited host sha256 r .create
  let row ← insertRecord r data
  let record := rowToRecord r.model row
  log (.entityCreated r.table ((record.lookup "id").getD .null) (r.session.map (·.sub)))
  return r.created row

/-- `PUT /api/<entity>/:id`. -/
def put (host : Host) (sha256 : String → String) (r : EntityRequest) : Async pg Thrown Response := do
  check r.requireUuid
  let data ← validateBodyAudited host sha256 r .update
  check (requireData data)
  let columns := r.columns data
  check (quoteColumns columns)
  let row ← query (.updateRecord r.table columns r.recordId)
  match row with
  | none => .throw (.runtime r.notFound)
  | some row =>
      log (.entityUpdated r.table r.recordId (r.session.map (·.sub)))
      return .updated (rowToRecord r.model row)

end OpenRupiv.Runtime
