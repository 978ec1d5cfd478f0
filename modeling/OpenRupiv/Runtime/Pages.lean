import OpenRupiv.Html.Template
import OpenRupiv.Runtime.Records
import OpenRupiv.Spec.Validate

/-!
# HTML pages

`packages/runtime/src/pages.ts`.  A page is a list of symbols: the literal text of the templates,
and the values that the source passes to `escapeHtml`, each marked as text or as part of an
attribute value.
-/

namespace OpenRupiv.Runtime

open Js Spec Html

/-- `text.replace(/c/g, by)`. -/
def replaceUnit (c : UInt16) (by_ : String) (t : Text) : Text :=
  t.flatMap fun u => if u = c then ofString by_ else [u]

/-- `escapeHtml` of a text. -/
def escapeHtml (t : Text) : Text :=
  replaceUnit 39 "&#39;" (replaceUnit (unit '"') "&quot;" (replaceUnit (unit '>') "&gt;"
    (replaceUnit (unit '<') "&lt;" (replaceUnit (unit '&') "&amp;" t))))

/-- The text that `escapeHtml` makes of a value before it escapes it. -/
def shown : Option SqlValue → Text
  | none | some .null => []
  | some (.str t) => t
  | some (.num n) => n.print
  | some (.bool b) => ofString (if b then "true" else "false")
  | some (.date ms) => toISOString ms

/-- The text of a page. -/
def render (page : List Symbol) : Text :=
  page.flatMap fun
    | .unit u => [u]
    | .text t => escapeHtml t
    | .quoted t => escapeHtml t

def PAGE_STYLE : String :=
  "
  body \x7b font-family: system-ui, sans-serif; margin: 2rem auto; max-width: 60rem; padding: 0 1rem; color: #1a202c; \x7d
  nav \x7b display: flex; gap: 1rem; align-items: baseline; border-bottom: 1px solid #cbd5e0; padding-bottom: 0.75rem; margin-bottom: 1.5rem; \x7d
  nav .spacer \x7b flex: 1; \x7d
  table \x7b border-collapse: collapse; width: 100%; \x7d
  th, td \x7b border: 1px solid #cbd5e0; padding: 0.4rem 0.6rem; text-align: left; \x7d
  th \x7b background: #edf2f7; \x7d
  form.inline \x7b display: inline; \x7d
  label \x7b display: block; margin-top: 0.75rem; font-weight: 600; \x7d
  input, select, textarea \x7b display: block; margin-top: 0.25rem; padding: 0.35rem; min-width: 20rem; \x7d
  button \x7b margin-top: 1rem; padding: 0.4rem 1rem; cursor: pointer; \x7d
  dl \x7b display: grid; grid-template-columns: max-content 1fr; gap: 0.4rem 1.5rem; \x7d
  dt \x7b font-weight: 600; \x7d
  .muted \x7b color: #4a5568; font-size: 0.9rem; \x7d
"

/-- The session of a request. -/
structure PageUser where
  sub : Text
  email : Option Text := none

def layout (title : Text) (user : Option PageUser) (body : List Symbol) : List Symbol :=
  let who := user.elim [] fun user => user.email.getD user.sub
  html ["<!doctype html>
<html lang=\"en\">
<head>
<meta charset=\"utf-8\">
<meta name=\"viewport\" content=\"width=device-width, initial-scale=1\">
<title>",
    "</title>\n<style>"] [.text title] ++
  html [PAGE_STYLE] [] ++
  html ["</style>
</head>
<body>
<nav>
  <a href=\"/\">Pages</a>
  <span class=\"spacer\"></span>
  <span class=\"muted\">",
    "</span>
  <form class=\"inline\" method=\"post\" action=\"/auth/logout\"><button type=\"submit\">Log out</button></form>
</nav>
<main>
"] [.text who] ++
  body ++ html ["\n</main>\n</body>\n</html>\n"] []

/-- `parts.join("\n")`. -/
def joinLines (parts : List (List Symbol)) : List Symbol := (html ["\n"] []).intercalate parts

/-- A row of an entity table.  PostgreSQL keeps no text with U+0000. -/
structure StoredRow where
  value : Row
  noNul : ∀ column t, value column = some (.str t) → 0 ∉ t

/-- What the queries of the pages return. -/
structure PageContents where
  /-- `SELECT * FROM table ORDER BY created_at DESC, id`. -/
  rows : String → List StoredRow
  /-- `SELECT * FROM table WHERE id = $1`. -/
  row : String → Text → Option StoredRow
  /-- The transitions and approvers in `workflow_approvals` for a record of a table. -/
  approvals : String → Text → List (String × String)

structure PageRequest where
  session : Option PageUser
  /-- The query parameter of detail pages. -/
  id : Option Text := none
  contents : PageContents

def title (page : PageDef) : Text := ofString (page.title.getD page.name)

def fieldsForPage (page : PageDef) (entity : EntityDef) : List FieldDef :=
  let byName := newMap (entity.fields.map fun f => (f.name, f))
  match page.fields with
  | none => entity.fields
  | some names => names.filterMap fun name => byName.lookup name

/-- A value of a record, as a text. -/
def valueOf (record : List (String × SqlValue)) (name : String) : Text := shown (record.lookup name)

def indexItem (page : PageDef) : List Symbol :=
  html ["<li><a href=\"/p/", "\">", "</a> <span class=\"muted\">(", " · ", ")</span></li>"]
    [.quoted (ofString page.name), .text (title page), .text (ofString page.type.print),
      .text (ofString page.entity)]

def indexPage (spec : AppSpec) (request : PageRequest) : List Symbol :=
  let items := joinLines ((spec.pages.getD []).map indexItem)
  let body :=
    html ["<h1>", "</h1>\n<p class=\"muted\">", "</p>\n<ul>\n"]
      [.text (ofString spec.app.name), .text (ofString (spec.app.description.getD ""))] ++
    items ++ html ["\n</ul>"] []
  layout (ofString spec.app.name) request.session body

def listRow (fields : List FieldDef) (detailPage : Option PageDef) (record : List (String × SqlValue)) :
    List Symbol :=
  let cells := fields.flatMap fun f => html ["<td>", "</td>"] [.text (valueOf record f.name)]
  let link := detailPage.elim [] fun detail =>
    html ["<td><a href=\"/p/", "?id=", "\">view</a></td>"]
      [.quoted (ofString detail.name), .quoted (valueOf record "id")]
  html ["<tr>"] [] ++ cells ++ link ++ html ["</tr>"] []

def listPage (spec : AppSpec) (page : PageDef) (model : EntityModel) (request : PageRequest) :
    List Symbol :=
  let fields := fieldsForPage page model.entity
  let detailPage := pageFor spec model.entity.name .detail
  let formPage := pageFor spec model.entity.name .form
  let records := (request.contents.rows model.table).map fun row => rowToRecord model row.value
  let head := fields.flatMap fun f => html ["<th>", "</th>"] [.text (ofString f.name)]
  let rows := joinLines (records.map (listRow fields detailPage))
  let newLink := formPage.elim [] fun form =>
    html ["<p><a href=\"/p/", "\">New ", "</a></p>"]
      [.quoted (ofString form.name), .text (ofString model.entity.name)]
  let body :=
    html ["<h1>", "</h1>\n"] [.text (title page)] ++ newLink ++
    html ["\n<table>\n<thead><tr>"] [] ++ head ++
    (if detailPage.isSome then html ["<th></th>"] [] else []) ++
    html ["</tr></thead>\n<tbody>\n"] [] ++ rows ++ html ["\n</tbody>\n</table>"] []
  layout (title page) request.session body

def approvalCounts (approvals : List (String × String)) : List (String × Nat) :=
  (approvals.map (·.1)).dedup.map fun transition =>
    (transition, ((approvals.filter fun a => a.1 = transition).map (·.2)).dedup.length)

/-- `String(n)` of a count, written without escapes. -/
def digits (n : Nat) : List Symbol := (Num.ofDouble n).print.map .unit

def transitionButton (model : EntityModel) (id : Text) (counts : List (String × Nat))
    (transition : TransitionDef) : List Symbol :=
  let count := (counts.lookup transition.name).getD 0
  let approvalNote := transition.approval.elim [] fun approval =>
    html [" <span class=\"muted\">("] [] ++ digits count ++ html [" of "] [] ++
      digits approval.count ++ html [" approvals)</span>"] []
  html ["<form class=\"inline\" method=\"post\" action=\"/api/", "/", "/transitions/",
      "\"><button type=\"submit\">", "</button></form>"]
    [.quoted (ofString model.apiSegment), .quoted id, .quoted (ofString transition.name),
      .text (ofString transition.name)] ++ approvalNote

def workflowSection (model : EntityModel) (id : Text) (row : Row) (counts : List (String × Nat))
    (workflow : WorkflowDef) : List Symbol :=
  let currentState := row (toSnakeCase workflow.stateField)
  let buttons := joinLines ((workflow.transitions.filter fun t =>
    currentState = some (.str (ofString t.from))).map (transitionButton model id counts))
  html ["<h2>Workflow: ", "</h2>\n<p>Current state: <strong>", "</strong></p>\n"]
    [.text (ofString workflow.name), .text (shown currentState)] ++
  if buttons = [] then html ["<p class=\"muted\">No transitions available from this state.</p>"] []
  else buttons

def notAnId : RuntimeError where
  code := .ERR_VALIDATION
  message := ofString "detail pages require an ?id=<uuid> query parameter"
  statusCode := 400

def recordNotFound (model : EntityModel) (id : Text) : RuntimeError where
  code := .ERR_NOT_FOUND
  message := ofString (model.entity.name ++ " ") ++ id ++ ofString " not found"
  statusCode := 404

def detailPage (page : PageDef) (model : EntityModel) (request : PageRequest) :
    Except RuntimeError (List Symbol) :=
  let fields := fieldsForPage page model.entity
  let hasApprovals := model.workflows.any fun w => w.transitions.any fun t => t.approval.isSome
  match request.id.filter isUuid with
  | none => .error notAnId
  | some id =>
      match request.contents.row model.table id with
      | none => .error (recordNotFound model id)
      | some row =>
          let record := rowToRecord model row.value
          let detail := joinLines (fields.map fun f =>
            html ["<dt>", "</dt><dd>", "</dd>"]
              [.text (ofString f.name), .text (valueOf record f.name)])
          let counts :=
            if hasApprovals then approvalCounts (request.contents.approvals model.table id) else []
          let workflowHtml := joinLines (model.workflows.map
            (workflowSection model id row.value counts))
          let body :=
            html ["<h1>", "</h1>\n<dl>\n"] [.text (title page)] ++ detail ++
            html ["\n</dl>\n"] [] ++ workflowHtml
          .ok (layout (title page) request.session body)

/-- The attribute `required`, as it is written. -/
def requiredText (field : FieldDef) : String := if field.required = some true then " required" else ""

def blankOption (field : FieldDef) : List Symbol :=
  if field.required = some true then [] else html ["<option value=\"\"></option>"] []

def enumOption (field : FieldDef) (v : String) : List Symbol :=
  let selected := if field.default = some (.str v) then " selected" else ""
  html ["<option value=\"", "\"" ++ selected ++ ">", "</option>"]
    [.quoted (ofString v), .text (ofString v)]

def select (field : FieldDef) (options : List Symbol) : List Symbol :=
  let name := ofString field.name
  html ["<select id=\"", "\" name=\"", "\"" ++ requiredText field ++ ">"] [.quoted name, .quoted name] ++
    blankOption field ++ options ++ html ["</select>"] []

def inputFor (field : FieldDef) : List Symbol :=
  let name := ofString field.name
  let required := requiredText field
  match field.type with
  | .text =>
      html ["<textarea id=\"", "\" name=\"", "\" rows=\"4\"" ++ required ++ "></textarea>"]
        [.quoted name, .quoted name]
  | .number =>
      html ["<input id=\"", "\" type=\"number\" step=\"any\" name=\"", "\"" ++ required ++ ">"]
        [.quoted name, .quoted name]
  | .boolean =>
      html ["<input id=\"", "\" type=\"checkbox\" name=\"", "\" value=\"true\">"]
        [.quoted name, .quoted name]
  | .date =>
      html ["<input id=\"", "\" type=\"date\" name=\"", "\"" ++ required ++ ">"]
        [.quoted name, .quoted name]
  | .datetime =>
      html ["<input id=\"", "\" type=\"datetime-local\" name=\"", "\"" ++ required ++ ">"]
        [.quoted name, .quoted name]
  | .enum => select field ((field.values.getD []).flatMap (enumOption field))
  | .string | .reference =>
      html ["<input id=\"", "\" type=\"text\" name=\"", "\"" ++ required ++ ">"]
        [.quoted name, .quoted name]

/-- The first string field. -/
def labelField (entity : EntityDef) : Option FieldDef :=
  entity.fields.find? fun f => f.type = .string

def referenceOption (target : EntityDef) (record : List (String × SqlValue)) : List Symbol :=
  let id := record.lookup "id"
  let label :=
    match (labelField target).bind fun label => record.lookup label.name with
    | none | some .null => id
    | value => value
  html ["<option value=\"", "\">", "</option>"] [.quoted (shown id), .text (shown label)]

def unknownTarget (field : FieldDef) (target : String) : RuntimeError where
  code := .ERR_APP_SPEC_INVALID
  message := ofString ("reference field " ++ field.name ++ " targets unknown entity " ++ target)

def control (spec : AppSpec) (contents : PageContents) (field : FieldDef) :
    Except RuntimeError (List Symbol) :=
  match if field.type = .reference then field.entity.filter (· ≠ "") else none with
  | some name =>
      match spec.entityByName name with
      | none => .error (unknownTarget field name)
      | some target =>
          let targetModel := buildEntityModel spec target
          let options := (contents.rows targetModel.table).flatMap fun row =>
            referenceOption target (rowToRecord targetModel row.value)
          .ok (select field options)
  | none => .ok (inputFor field)

def labelled (field : FieldDef) (control : List Symbol) : List Symbol :=
  html ["<label for=\"", "\">", "</label>\n"]
    [.quoted (ofString field.name), .text (ofString field.name)] ++ control

def formPage (spec : AppSpec) (page : PageDef) (model : EntityModel) (request : PageRequest) :
    Except RuntimeError (List Symbol) := do
  let fields := (fieldsForPage page model.entity).filter fun f =>
    !model.stateFields.any fun e => e.1 == f.name
  let controls ← fields.mapM fun field => do
    return labelled field (← control spec request.contents field)
  let body :=
    html ["<h1>", "</h1>\n<form method=\"post\" action=\"/api/", "\">\n"]
      [.text (title page), .quoted (ofString model.apiSegment)] ++
    joinLines controls ++ html ["\n<button type=\"submit\">Create</button>\n</form>"] []
  return layout (title page) request.session body

def unknownEntity (page : PageDef) : RuntimeError where
  code := .ERR_APP_SPEC_INVALID
  message := ofString ("page " ++ page.name ++ " references unknown entity " ++ page.entity)

/-- The page that a route answers with. -/
def servePage (spec : AppSpec) (page : PageDef) (request : PageRequest) :
    Except RuntimeError (List Symbol) :=
  match spec.entityByName page.entity with
  | none => .error (unknownEntity page)
  | some entity =>
      let model := buildEntityModel spec entity
      match page.type with
      | .list => .ok (listPage spec page model request)
      | .detail => detailPage page model request
      | .form => formPage spec page model request

end OpenRupiv.Runtime
