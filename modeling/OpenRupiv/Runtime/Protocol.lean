import OpenRupiv.Runtime.Calls

/-!
# The protocol of a call

What a call does to the database, statement by statement no longer: it looks at the record, asks
the policy engine and records every answer, and then its effect becomes visible in one step, with
the audit record.  The step is described by what is committed at that moment.
-/

namespace OpenRupiv.Runtime

open Js Lib Spec Audit

variable (pg : Postgres) (host : Host) (sha256 : String → String)

namespace ExecuteTransitionInput

variable (i : ExecuteTransitionInput)

/-- The questions that have to be answered with allow, in order. -/
def questions : List Question :=
  .fire :: if i.transition.approval.isSome then [.approve] else []

/-- The checks on the record: it exists, it is in the right state, the guard predicates hold. -/
def checkRow (row : Option Row) : Except RuntimeError Unit := do
  let row ← i.requireRow row
  i.requireFrom row
  checkGuardPredicates host i.transition i.model row

def approval (uuid : Uuid) : Approval := ⟨i.table, uuid, i.transition.name, i.user.sub⟩

/-- The writes of `setState`, the approvals of the record being `seen`. -/
def stateWrites (uuid : Uuid) (now : Int) (seen : List Approval) : List Write :=
  [.setColumns i.table uuid
      [(i.stateColumn, .str (ofString i.transition.to)), ("updated_at", .date now)],
    .deleteApprovals seen]

/-- The writes of a transaction that succeeds on a record that passes the checks. -/
inductive EffectOf (uuid : Uuid) (κ : Contents) : List Write → TransitionOutcome → Prop where
  | plain {now : Int} {audit : AuditRow} :
      i.transition.approval = none →
      Appends pg sha256 κ.audit (i.transitionRecord none) audit →
      EffectOf uuid κ
        (i.stateWrites uuid now (κ.approvals.filter (·.about i.table uuid)) ++ [.insertAudit audit])
        (.transitioned i.transition.to)
  | final {rule : ApprovalRule} {approvals : Nat} {now : Int} {audit : AuditRow} :
      i.transition.approval = some rule →
      i.approval uuid ∉ κ.approvals →
      ((κ.apply (.insertApproval (i.approval uuid))).approvers i.table uuid
        i.transition.name).length = approvals →
      rule.count ≤ approvals →
      Appends pg sha256 κ.audit (i.transitionRecord (some (approvals, rule.count))) audit →
      EffectOf uuid κ
        (.insertApproval (i.approval uuid) ::
          i.stateWrites uuid now ((κ.approvals ++ [i.approval uuid]).filter (·.about i.table uuid)) ++
          [.insertAudit audit])
        (.transitioned i.transition.to)
  | pending {rule : ApprovalRule} {approvals : Nat} {audit : AuditRow} :
      i.transition.approval = some rule →
      i.approval uuid ∉ κ.approvals →
      ((κ.apply (.insertApproval (i.approval uuid))).approvers i.table uuid
        i.transition.name).length = approvals →
      approvals < rule.count →
      Appends pg sha256 κ.audit (i.approvalRecord approvals rule.count) audit →
      EffectOf uuid κ [.insertApproval (i.approval uuid), .insertAudit audit]
        (.pending approvals rule.count)

end ExecuteTransitionInput

namespace EntityRequest

variable (r : EntityRequest)

/-- What a `POST` checks before it issues a statement; the columns that it inserts. -/
def prepareInsert : Except RuntimeError (List (String × Scalar)) := do
  let data ← r.validated host .create
  let _ ← quoteIdent r.table
  quoteColumns (r.insertColumns data)
  return r.insertColumns data

/-- What a `PUT` checks before it issues a statement; the columns that it updates. -/
def prepareUpdate : Except RuntimeError (List (String × Scalar)) := do
  r.requireUuid
  let data ← r.validated host .update
  requireData data
  quoteColumns (r.columns data)
  return r.columns data

/-- The checks of the handler, by its mode. -/
def prepare : Mode → Except RuntimeError (List (String × Scalar))
  | .create => r.prepareInsert host
  | .update => r.prepareUpdate host

end EntityRequest

def Call.request : Call → Option (EntityRequest × Mode)
  | .transition _ => none
  | .create r => some (r, .create)
  | .update r => some (r, .update)

/-- How far a call has come. -/
inductive Phase where
  | ready
  | invoked
  /-- The record was read, and these questions were answered with allow. -/
  | looked (row : Option Row) (granted : List Question)
  /-- The answer is not recorded yet. -/
  | answered (row : Row) (granted : List Question) (q : Question) (decision : PolicyDecision)
  | denied (row : Row) (granted : List Question) (q : Question) (decision : PolicyDecision)
  /-- The record was read again, under its lock. -/
  | locked (row : Option Row)
  | duplicate
  /-- The duplicate approval was recorded. -/
  | reported
  /-- A write to a state field was recorded. -/
  | rejected (error : RuntimeError)
  | done (response : Response)
  /-- A command failed. -/
  | faulted
  | finished (answer : Except Thrown Response)

def Phase.fail : Phase → Phase
  | .done response => .done response
  | .finished answer => .finished answer
  | _ => .faulted

/-- What is thrown when a command fails. -/
inductive Failure : Thrown → Prop where
  | fault : Failure .fault
  | append {event} : Failure (.runtime (appendFailed event))
  | batch {failures inputs} : Failure (.runtime (appendAllFailed failures inputs))

/-- The answers that a call may give. -/
inductive MayReturn (call : Call) : Phase → Except Thrown Response → Prop where
  | identifier {i error} : call = .transition i → quoteIdent i.table = .error error →
      MayReturn call .invoked (.error (.runtime error))
  | missing {i} : call = .transition i →
      MayReturn call (.looked none []) (.error (.runtime i.notFound))
  | state {i row error} : call = .transition i → i.requireFrom row = .error error →
      MayReturn call (.looked (some row) []) (.error (.runtime error))
  | predicates {i row error} : call = .transition i → i.requireFrom row = .ok () →
      checkGuardPredicates host i.transition i.model row = .error error →
      MayReturn call (.looked (some row) [.fire]) (.error (.runtime error))
  | forbidden {i row granted q decision} : call = .transition i →
      MayReturn call (.denied row granted q decision) (.error (.runtime (i.forbiddenRole q decision)))
  | locked {i row error} : call = .transition i → i.checkRow host row = .error error →
      MayReturn call (.locked row) (.error (.runtime error))
  | column {i row error} : call = .transition i → i.checkRow host row = .ok () →
      quoteIdent i.stateColumn = .error error →
      MayReturn call (.locked row) (.error (.runtime error))
  | duplicate {i} : call = .transition i →
      MayReturn call .reported (.error (.runtime i.duplicateApprover))
  | refused {r mode error} : call.request = some (r, mode) → r.prepare host mode = .error error →
      error.code ≠ .ERR_STATE_FIELD_READONLY →
      MayReturn call .invoked (.error (.runtime error))
  | rejected {r mode error} : call.request = some (r, mode) →
      MayReturn call (.rejected error) (.error (.runtime error))
  | absent {r} : call = .update r →
      MayReturn call (.looked none []) (.error (.runtime r.notFound))
  | done {response} : MayReturn call (.done response) (.ok response)
  | faulted {thrown} : Failure thrown → MayReturn call .faulted (.error thrown)

/-- The steps of a call. -/
inductive Moves (call : Call) : Phase → Contents → (k : Cmd (store pg)) → Option k.Reply →
    List Write → Phase → Prop where
  | failed {φ κ k} : Moves call φ κ k none [] φ.fail
  | unrolled {φ κ} : Moves call φ κ .rollback none [] φ
  | quiet {φ κ k} (r : k.Reply) : k.quiet = true → Moves call φ κ k (some r) [] φ
  | clock {φ κ r} : Moves call φ κ (.ext .clock) (some r) [] φ
  /-- The log line of a failed append appears after a failure only. -/
  | log {φ κ entry r} : (∀ input, entry = .appendFailed input → φ = .faulted) →
      Moves call φ κ (.ext (.log entry)) (some r) [] φ
  | invoked {κ r} : Moves call .ready κ (.ext .invoked) (some r) [] .invoked
  | returned {φ κ answer r} : MayReturn host call φ answer →
      Moves call φ κ (.ext (.returned answer)) (some r) [] (.finished answer)
  | looked {i κ uuid} : call = .transition i → pg.uuid i.recordId = some uuid →
      Moves call .invoked κ (.query (.selectById i.table i.recordId)) (some (κ.rows i.table uuid)) []
        (.looked (κ.rows i.table uuid) [])
  | asked {i κ row granted q decision} : call = .transition i → i.requireFrom row = .ok () →
      (q = .approve → checkGuardPredicates host i.transition i.model row = .ok ()) →
      granted ++ [q] <+: i.questions →
      Moves call (.looked (some row) granted) κ (.ext (.decide (i.policyInput q))) (some decision) []
        (.answered row granted q decision)
  | granted {i κ row granted q decision audit} : call = .transition i → decision.allow = true →
      Appends pg sha256 κ.audit (i.decisionRecord q decision) audit →
      Moves call (.answered row granted q decision) κ .commit (some ()) [.insertAudit audit]
        (.looked (some row) (granted ++ [q]))
  | denied {i κ row granted q decision audit} : call = .transition i → decision.allow = false →
      Appends pg sha256 κ.audit (i.decisionRecord q decision) audit →
      Moves call (.answered row granted q decision) κ .commit (some ()) [.insertAudit audit]
        (.denied row granted q decision)
  | locked {i κ row uuid} : call = .transition i → pg.uuid i.recordId = some uuid →
      Moves call (.looked (some row) i.questions) κ (.tx (.selectForUpdate i.table i.recordId))
        (some (κ.rows i.table uuid)) [] (.locked (κ.rows i.table uuid))
  | duplicate {i κ row uuid} : call = .transition i → pg.uuid i.recordId = some uuid →
      κ.rows i.table uuid = some row → i.checkRow host (some row) = .ok () →
      i.transition.approval.isSome = true → i.approval uuid ∈ κ.approvals →
      Moves call (.locked (some row)) κ
        (.tx (.insertApproval i.table i.recordId i.transition.name i.user.sub)) (some false) []
        .duplicate
  | reported {i κ audit} : call = .transition i →
      Appends pg sha256 κ.audit i.duplicateRecord audit →
      Moves call .duplicate κ .commit (some ()) [.insertAudit audit] .reported
  | effect {i κ row uuid ws outcome} : call = .transition i → pg.uuid i.recordId = some uuid →
      κ.rows i.table uuid = some row → i.checkRow host (some row) = .ok () →
      i.EffectOf pg sha256 uuid κ ws outcome →
      Moves call (.locked (some row)) κ .commit (some ()) ws (.done (.outcome outcome))
  | rejected {r mode error κ audit} : call.request = some (r, mode) →
      r.prepare host mode = .error error → error.code = .ERR_STATE_FIELD_READONLY →
      Appends pg sha256 κ.audit (r.rejectionRecord mode error) audit →
      Moves call .invoked κ .commit (some ()) [.insertAudit audit] (.rejected error)
  | created {r columns stored κ id now} : call = .create r → r.prepareInsert host = .ok columns →
      (columns.map Prod.fst).Nodup → encodeAll pg r.table columns = some stored →
      κ.rows r.table id = none →
      Moves call .invoked κ (.query (.insertRecord r.table columns))
        (some (some (setAll (pg.newRow r.table id now) stored)))
        [.insertRow r.table id (setAll (pg.newRow r.table id now) stored)]
        (.done (r.created (setAll (pg.newRow r.table id now) stored)))
  | updated {r columns stored κ row uuid now} : call = .update r →
      r.prepareUpdate host = .ok columns → pg.uuid r.recordId = some uuid →
      encodeAll pg r.table columns = some stored → κ.rows r.table uuid = some row →
      Moves call .invoked κ (.query (.updateRecord r.table columns r.recordId))
        (some (some (setAll row (stored ++ [("updated_at", .date now)]))))
        [.setColumns r.table uuid (stored ++ [("updated_at", .date now)])]
        (.done (.updated (rowToRecord r.model (setAll row (stored ++ [("updated_at", .date now)])))))
  | absent {r columns κ uuid} : call = .update r → r.prepareUpdate host = .ok columns →
      pg.uuid r.recordId = some uuid → κ.rows r.table uuid = none →
      Moves call .invoked κ (.query (.updateRecord r.table columns r.recordId)) (some none) []
        (.looked none [])

/-- The calls of the clients as a protocol. -/
def protocol {Client : Type} (calls : Client → Call) : Protocol (store pg) Client Phase where
  Step c := Moves pg host sha256 (calls c)
  fail := Phase.fail
  silent
    | .clock => true
    | .log (.appendFailed _) => false
    | .log _ => true
    | _ => false
  failed := .failed
  unrolled := .unrolled
  passed := .quiet
  served := by
    intro c φ κ x r hx
    split at hx
    · exact .clock
    · exact absurd hx (by simp)
    · rename_i entry hentry
      exact .log fun input h => absurd h (hentry input)
    · exact absurd hx (by simp)

end OpenRupiv.Runtime
