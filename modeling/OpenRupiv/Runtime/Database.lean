import OpenRupiv.Audit.Store
import OpenRupiv.Lib.Protocol
import OpenRupiv.Runtime.Records

/-!
# The tables of the runtime

The entity tables, `workflow_approvals`, `audit_log`, `agent_proposals` and `a2a_tasks`
(`packages/runtime/src/migrate.ts`), the statements that the handlers issue on them, and the
services beside the database: the policy engine, the clock, the logger, and the tools, servers,
capabilities and procedures that calls are dispatched to.

A row lock also protects the approvals of the record, which no statement of its own enforces: the
handlers write them under the row lock only.
-/

namespace OpenRupiv.Runtime

open Js Lib

/-- A `uuid` in the form that the database prints. -/
abbrev Uuid := String

structure Approval where
  entityTable : String
  recordId : Uuid
  transition : String
  approverSub : String
  deriving DecidableEq

/-- A row of `agent_proposals`. -/
structure Proposal where
  id : Uuid
  agentId : String
  entityTable : String
  recordId : Uuid
  workflow : String
  transition : String
  rationale : String
  createdAt : Int
  deriving DecidableEq

inductive TaskStatus where
  | completed
  | failed
  deriving DecidableEq

/-- A row of `a2a_tasks`. -/
structure A2aTask where
  id : Uuid
  clientId : String
  skill : String
  status : TaskStatus
  result : Json

structure Contents where
  rows : String → Uuid → Option Row
  approvals : List Approval
  audit : List Audit.AuditRow
  proposals : List Proposal := []
  tasks : List A2aTask := []

/-- What is left to the database. -/
structure Postgres where
  /-- The columns of `audit_log`. -/
  columns : Audit.Columns
  /-- The cast of a text to `uuid`. -/
  uuid : String → Option Uuid
  /-- The row of `INSERT … DEFAULT VALUES`, given the new id and `now()`. -/
  newRow : String → Uuid → Int → Row
  /-- What a column of a table makes of a parameter. -/
  encode : String → String → Scalar → Option SqlValue

/-- A database of text columns, where a column that is not set is null. -/
def postgresText : Postgres where
  columns := Audit.postgres
  uuid s := if isUuid (ofString s) then some (s.map Char.toLower) else none
  newRow _ id now column :=
    if column = "id" then some (.str (ofString id))
    else if column = "created_at" ∨ column = "updated_at" then some (.date now)
    else some .null
  encode _ _
    | .null => some .null
    | .bool b => some (.bool b)
    | .num n => some (.num n)
    | .str s => some (.str s)

structure PolicyInput where
  subjectId : String
  subjectRoles : List String
  action : String
  resourceType : String
  resourceId : Option String
  allowedRoles : List String
  /-- The task in the `context`. -/
  task : Option String := none
  deriving DecidableEq

structure PolicyDecision where
  allow : Bool
  reason : Text
  policyId : Text
  deriving DecidableEq

/-- What leaves the runtime: a tool in the sandbox, a tool of an upstream server, a capability that
is served, the procedure of an agent task. -/
inductive Dispatch where
  | sandbox (tool entrypoint : String) (workspaceDir : Text) (input : Json)
  | upstream (server tool : String) (args : Json)
  | capability (name : String) (args : Json)
  | procedure (skill : String) (input : Json)

inductive SandboxFailure where
  | violation (egress : Bool)
  | limit (what : String)
  | tool_error
  deriving DecidableEq

/-- `SandboxExecuteResult`, without the duration. -/
inductive SandboxResult where
  | ok (output : Json)
  | failed (reason : SandboxFailure) (message : Text)

/-- What comes back; `none` of a connection is a failure to connect. -/
inductive UpstreamResult where
  | content (content : Json)
  | isError (content : Json)
  | notConnected (protocolError : Bool) (message : Text)

/-- How a procedure ended. -/
structure AgentTaskOutcome where
  reason : Text
  detail : Option Object

@[reducible] def Dispatch.Answer : Dispatch → Type
  | .sandbox _ _ _ _ => SandboxResult
  | .upstream _ _ _ => UpstreamResult
  | .capability _ _ => Json
  | .procedure _ _ => AgentTaskOutcome

inductive LogEntry where
  | policyDecision (action : String) (decision : PolicyDecision) (sub : String)
  | transitioned (workflow entityTable recordId transition «from» «to» sub : String)
      (approvals : Option (Nat × Nat))
  | duplicateApprover (workflow entityTable recordId transition approverSub : String)
  | approvalRecorded (workflow entityTable recordId transition approverSub : String)
      (approvals required : Nat)
  | appendFailed (auditRecord : Audit.AuditRecordInput)
  | attributesScrubbed (auditEvent : Text) (keys : List Text)
  | entityCreated (entityTable : String) (recordId : SqlValue) (sub : Option String)
  | entityUpdated (entityTable recordId : String) (sub : Option String)
  | a2aTaskFailed (skill clientId : String)

inductive TransitionOutcome where
  | transitioned (state : String)
  | pending (approvals required : Nat)
  deriving DecidableEq

inductive Response where
  | outcome (outcome : TransitionOutcome)
  | created (record : List (String × SqlValue))
  | updated (record : List (String × SqlValue))
  | redirect (target : Text)
  deriving DecidableEq

inductive Ext where
  /-- `PolicyEngine.decide`. -/
  | decide (input : PolicyInput)
  /-- `new Date().toISOString()`. -/
  | clock
  | log (entry : LogEntry)
  /-- A request arrives, and it is answered. -/
  | invoked
  | returned (result : Except Thrown Response)
  /-- `randomUUID()`. -/
  | random
  /-- The milliseconds since the start of a dispatch. -/
  | elapsed
  /-- A dispatch; it may throw, with a message. -/
  | dispatch (target : Dispatch)

@[reducible] def Ext.Answer : Ext → Type
  | .decide _ => PolicyDecision
  | .clock => Rfc3339
  | .random => Uuid
  | .elapsed => Nat
  | .dispatch target => Except Text target.Answer
  | _ => Unit

inductive Write where
  | insertRow (table : String) (id : Uuid) (row : Row)
  | setColumns (table : String) (id : Uuid) (values : List (String × SqlValue))
  | insertApproval (approval : Approval)
  | deleteApprovals (seen : List Approval)
  | insertAudit (row : Audit.AuditRow)
  | insertProposal (proposal : Proposal)
  | insertTask (task : A2aTask)

inductive Stmt where
  /-- `SELECT * FROM table WHERE id = $1`. -/
  | selectById (table : String) (id : String)
  /-- `SELECT * FROM table WHERE id = $1 FOR UPDATE`. -/
  | selectForUpdate (table : String) (id : String)
  /-- `INSERT INTO table (…) VALUES (…) RETURNING *`. -/
  | insertRecord (table : String) (values : List (String × Scalar))
  /-- `UPDATE table SET …, updated_at = now() WHERE id = $n RETURNING *`. -/
  | updateRecord (table : String) (values : List (String × Scalar)) (id : String)
  /-- `UPDATE table SET stateColumn = $1, updated_at = now() WHERE id = $2`: the row count. -/
  | updateState (table stateColumn «to» : String) (id : String)
  /-- `DELETE FROM workflow_approvals WHERE entity_table = $1 AND record_id = $2`. -/
  | deleteApprovals (table : String) (id : String)
  /-- `INSERT … ON CONFLICT … DO NOTHING RETURNING id`: whether a row was inserted. -/
  | insertApproval (table : String) (id : String) (transition approverSub : String)
  /-- `SELECT COUNT(DISTINCT approver_sub) …`. -/
  | countApprovals (table : String) (id : String) (transition : String)
  /-- `SELECT pg_advisory_xact_lock($1)` on the key of the chain. -/
  | lockChainTail
  /-- `SELECT … FROM audit_log ORDER BY seq DESC LIMIT 1 FOR UPDATE`. -/
  | selectTail
  /-- `INSERT INTO audit_log …` with `insertParams(record)`. -/
  | insertAudit (record : Audit.AuditRecord) (timestamp : Rfc3339)
  /-- `INSERT INTO agent_proposals …`. -/
  | insertProposal (id agentId entityTable recordId workflow transition rationale : String)
      (createdAt : Rfc3339)
  /-- `INSERT INTO a2a_tasks …`. -/
  | insertTask (id clientId skill : String) (status : TaskStatus) (result : Value)
  /-- `SELECT * FROM a2a_tasks WHERE id = $1 AND client_id = $2`. -/
  | selectTask (id clientId : String)

@[reducible] def Stmt.Reply : Stmt → Type
  | .selectById _ _ => Option Row
  | .selectForUpdate _ _ => Option Row
  | .insertRecord _ _ => Option Row
  | .updateRecord _ _ _ => Option Row
  | .updateState _ _ _ _ => Nat
  | .insertApproval _ _ _ _ => Bool
  | .countApprovals _ _ _ => Nat
  | .selectTail => Option Audit.AuditRow
  | .selectTask _ _ => Option A2aTask
  | _ => Unit

inductive Lock where
  | row (table : String) (id : Uuid)
  | chain
  deriving DecidableEq

/-- The outcome of what the environment decides when a command is executed. -/
structure Choice where
  fails : Bool
  /-- `gen_random_uuid()` and `randomUUID()`. -/
  id : Uuid
  /-- `now()` of the database, in milliseconds. -/
  now : Int
  clock : Rfc3339
  /-- The answer of the policy engine, if it gives one. -/
  decision : Option PolicyDecision
  elapsed : Nat := 0
  dispatched : (target : Dispatch) → Except Text target.Answer := fun _ => .error []

def setAll (row : Row) (values : List (String × SqlValue)) : Row :=
  values.foldl (fun r e => Function.update r e.1 (some e.2)) row

def Approval.about (table : String) (id : Uuid) (a : Approval) : Bool :=
  a.entityTable = table && a.recordId = id

namespace Contents

def setRow (κ : Contents) (table : String) (id : Uuid) (row : Option Row) : Contents :=
  { κ with rows := Function.update κ.rows table (Function.update (κ.rows table) id row) }

def apply (κ : Contents) : Write → Contents
  | .insertRow table id row => κ.setRow table id (some row)
  | .setColumns table id values =>
      κ.setRow table id ((κ.rows table id).map fun row => setAll row values)
  | .insertApproval a => { κ with approvals := κ.approvals ++ [a] }
  | .deleteApprovals seen => { κ with approvals := κ.approvals.filter fun a => a ∉ seen }
  | .insertAudit row => { κ with audit := κ.audit ++ [row] }
  | .insertProposal proposal => { κ with proposals := κ.proposals ++ [proposal] }
  | .insertTask task => { κ with tasks := κ.tasks ++ [task] }

/-- The approvers of a transition of a record. -/
def approvers (κ : Contents) (table : String) (id : Uuid) (transition : String) : List String :=
  ((κ.approvals.filter fun a => a.about table id && a.transition = transition).map
    (·.approverSub)).dedup

end Contents

/-- The parameters as the columns store them. -/
def encodeAll (pg : Postgres) (table : String) (values : List (String × Scalar)) :
    Option (List (String × SqlValue)) :=
  values.mapM fun e => (pg.encode table e.1 e.2).map fun v => (e.1, v)

namespace Stmt

/-- Statements that read a row for update or update it lock it; an insert locks the new row. -/
def locks (pg : Postgres) (choice : Choice) (κ : Contents) : Stmt → List Lock
  | .selectForUpdate table id | .updateRecord table _ id | .updateState table _ _ id =>
      match pg.uuid id with
      | some uuid => if (κ.rows table uuid).isSome then [.row table uuid] else []
      | none => []
  | .insertRecord table _ => [.row table choice.id]
  | .lockChainTail => [.chain]
  | _ => []

/-- An `id` parameter that is no uuid is refused, and so is a column named twice. -/
def exec (pg : Postgres) (choice : Choice) (κ : Contents) :
    (s : Stmt) → Option (s.Reply × List Write)
  | .selectById table id | .selectForUpdate table id => do
      let uuid ← pg.uuid id
      return (κ.rows table uuid, [])
  | .insertRecord table values => do
      guard (values.map Prod.fst).Nodup
      let stored ← encodeAll pg table values
      guard (κ.rows table choice.id).isNone
      let row := setAll (pg.newRow table choice.id choice.now) stored
      return (some row, [.insertRow table choice.id row])
  | .updateRecord table values id => do
      let uuid ← pg.uuid id
      guard (values.map Prod.fst).Nodup
      let stored ← encodeAll pg table values
      let values := stored ++ [("updated_at", .date choice.now)]
      match κ.rows table uuid with
      | none => return (none, [])
      | some row => return (some (setAll row values), [.setColumns table uuid values])
  | .updateState table stateColumn «to» id => do
      let uuid ← pg.uuid id
      match κ.rows table uuid with
      | none => return (0, [])
      | some _ =>
          return (1, [.setColumns table uuid
            [(stateColumn, .str (ofString «to»)), ("updated_at", .date choice.now)]])
  | .deleteApprovals table id => do
      let uuid ← pg.uuid id
      return ((), [.deleteApprovals (κ.approvals.filter (·.about table uuid))])
  | .insertApproval table id transition approverSub => do
      let uuid ← pg.uuid id
      let approval : Approval := ⟨table, uuid, transition, approverSub⟩
      if approval ∈ κ.approvals then return (false, [])
      else return (true, [.insertApproval approval])
  | .countApprovals table id transition => do
      let uuid ← pg.uuid id
      return ((κ.approvers table uuid transition).length, [])
  | .lockChainTail => some ((), [])
  | .selectTail => some (Audit.selectTail κ.audit, [])
  | .insertAudit record timestamp => do
      let row ← Audit.columnsOf pg.columns record timestamp
      let _ ← Audit.insertRow κ.audit row
      return ((), [.insertAudit row])
  | .insertProposal id agentId entityTable recordId workflow transition rationale createdAt => do
      let uuid ← pg.uuid id
      let record ← pg.uuid recordId
      let instant ← pg.columns.timestamptz createdAt
      guard ([agentId, entityTable, workflow, transition, rationale].all fun s =>
        (Audit.textColumn (ofString s)).isSome)
      guard (uuid ∉ κ.proposals.map (·.id))
      return ((), [.insertProposal
        ⟨uuid, agentId, entityTable, record, workflow, transition, rationale, instant⟩])
  | .insertTask id clientId skill status result => do
      let uuid ← pg.uuid id
      let stored ← pg.columns.jsonb result
      guard ([clientId, skill].all fun s => (Audit.textColumn (ofString s)).isSome)
      guard (uuid ∉ κ.tasks.map (·.id))
      return ((), [.insertTask ⟨uuid, clientId, skill, status, stored.json⟩])
  | .selectTask id clientId => do
      let uuid ← pg.uuid id
      return (κ.tasks.find? fun task => task.id = uuid ∧ task.clientId = clientId, [])

end Stmt

/-- The database of the runtime, with its services. -/
abbrev store (pg : Postgres) : Engine where
  Contents := Contents
  Write := Write
  Lock := Lock
  Stmt := Stmt
  Reply := Stmt.Reply
  Ext := Ext
  Answer := Ext.Answer
  Choice := Choice
  fails := Choice.fails
  apply := Contents.apply
  locks := Stmt.locks pg
  exec := Stmt.exec pg
  answer choice
    | .decide _ => choice.decision
    | .clock => some choice.clock
    | .log _ => some ()
    | .invoked => some ()
    | .returned _ => some ()
    | .random => some choice.id
    | .elapsed => some choice.elapsed
    | .dispatch target => some (choice.dispatched target)

namespace Contents

@[simp] theorem setRow_rows_self (κ : Contents) (table : String) (id : Uuid) (row : Option Row) :
    (κ.setRow table id row).rows table id = row := by
  simp [setRow]

theorem setRow_rows_of_ne (κ : Contents) {table table' : String} {id id' : Uuid} (row : Option Row)
    (h : ¬(table = table' ∧ id = id')) :
    (κ.setRow table id row).rows table' id' = κ.rows table' id' := by
  by_cases ht : table = table'
  · subst ht
    have hid : id' ≠ id := fun heq => h ⟨rfl, heq.symm⟩
    simp [setRow, hid]
  · simp [setRow, Function.update_of_ne (Ne.symm ht)]

@[simp] theorem setRow_approvals (κ : Contents) (table : String) (id : Uuid) (row : Option Row) :
    (κ.setRow table id row).approvals = κ.approvals := rfl

@[simp] theorem setRow_audit (κ : Contents) (table : String) (id : Uuid) (row : Option Row) :
    (κ.setRow table id row).audit = κ.audit := rfl

end Contents

/-- What the row lock of a record covers. -/
def SameRecord (table : String) (id : Uuid) (κ κ' : Contents) : Prop :=
  κ.rows table id = κ'.rows table id ∧
    κ.approvals.filter (·.about table id) = κ'.approvals.filter (·.about table id)

def Write.touches : Write → Lock → Prop
  | .insertRow table id _, .row table' id' => table = table' ∧ id = id'
  | .setColumns table id _, .row table' id' => table = table' ∧ id = id'
  | .insertApproval a, .row table id => a.about table id = true
  | .deleteApprovals seen, .row table id => ∃ a ∈ seen, a.about table id = true
  | .insertAudit _, .chain => True
  | _, _ => False

theorem sameRecord_apply {w : Write} {table : String} {id : Uuid} (κ : Contents)
    (h : ¬w.touches (.row table id)) : SameRecord table id κ (κ.apply w) := by
  cases w with
  | insertRow table' id' row => exact ⟨(κ.setRow_rows_of_ne _ h).symm, rfl⟩
  | setColumns table' id' values => exact ⟨(κ.setRow_rows_of_ne _ h).symm, rfl⟩
  | insertApproval a =>
    refine ⟨rfl, ?_⟩
    have ha : a.about table id = false := by simpa [Write.touches] using h
    simp [Contents.apply, ha]
  | deleteApprovals seen =>
    refine ⟨rfl, ?_⟩
    simp only [Contents.apply, List.filter_filter]
    apply List.filter_congr
    intro a _
    cases ha : a.about table id with
    | false => rfl
    | true =>
      have hseen : a ∉ seen := fun hmem => h ⟨a, hmem, ha⟩
      simp [hseen]
  | insertAudit _ | insertProposal _ | insertTask _ => exact ⟨rfl, rfl⟩

/-- A row lock protects the record and its approvals, the chain lock the audit log. -/
def protection (pg : Postgres) : Protection (store pg) where
  Same l κ κ' :=
    match l with
    | .row table id => SameRecord table id κ κ'
    | .chain => κ.audit = κ'.audit
  touches := Write.touches
  refl l κ := by cases l <;> simp [SameRecord]
  trans {l κ κ' κ''} h h' := by
    cases l with
    | row table id => exact ⟨h.1.trans h'.1, h.2.trans h'.2⟩
    | chain => exact Eq.trans h h'
  apply {w l} κ h := by
    cases l with
    | row table id => exact sameRecord_apply κ h
    | chain =>
      cases w with
      | insertAudit row => exact absurd trivial h
      | _ => rfl

end OpenRupiv.Runtime
