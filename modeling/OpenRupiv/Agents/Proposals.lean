import OpenRupiv.Agents.Runtime
import OpenRupiv.Lib.Confinement
import OpenRupiv.Runtime.Interference

/-!
# What an agent can write

The commands of the agent runtime, whatever the code of a task does with its context: it appends to
the audit log, and it inserts the proposals that the code asks for, with their records.  Nothing
compares a proposal with what the task declares.
-/

namespace OpenRupiv.Agents

open Js Lib Spec Audit OpenRupiv.Runtime

/-- On behalf of a task: the append of `contextFor`, and the code on its context. -/
inductive AgentCall where
  | started (taskName : String)
  | drive (taskName : String) (code : TaskCode)

section Calls

variable {pg : Postgres} (sha256 : String → String) (deps : CreateAgentRuntimeDeps) (spec : AppSpec)

/-- An unknown task has no context. -/
def AgentCall.run : AgentCall → Async pg Thrown Unit
  | .started taskName =>
      if (tasksByName spec).lookup taskName = none then .throw .fault
      else taskStarted sha256 (identityOf spec taskName) taskName
  | .drive taskName code =>
      match contextFor spec taskName code with
      | none => .throw .fault
      | some run => run.run sha256 deps

namespace AgentCall

def taskName : AgentCall → String
  | .started taskName | .drive taskName _ => taskName

def identity (call : AgentCall) : AgentIdentity := identityOf spec call.taskName

def task (call : AgentCall) : Option AgentTaskDef := (tasksByName spec).lookup call.taskName

end AgentCall

/-- The database with the agents that are about to begin. -/
def agents (pg : Postgres) {Client : Type} (calls : Client → AgentCall) (contents : Contents) :
    World (store pg) Client Thrown Unit :=
  .start (fun c => (calls c).run sha256 deps spec) contents

end Calls

/-- The code may propose this, after some replies. -/
inductive Issues : TaskCode → ProposeRequest → Prop where
  | here {p next} : Issues (.call (.propose p) next) p
  | later {o next r p} : Issues (next (some r)) p → Issues (.call o next) p

def AgentCall.Proposes : AgentCall → ProposeRequest → Prop
  | .started _, _ => False
  | .drive _ code, p => Issues code p

/-- The columns of `agent_proposals` take the request. -/
structure Fits (pg : Postgres) (identity : AgentIdentity) (p : ProposeRequest) : Prop where
  record : (pg.uuid p.recordId).isSome = true
  texts : ∀ s ∈ [identity.id, p.entityTable, p.workflow, p.transition, p.rationale],
    (textColumn (ofString s)).isSome = true

/-- The task may propose the transition, and the table is the one of the workflow's entity. -/
structure Declares (spec : AppSpec) (task : AgentTaskDef) (table workflow transition : String) :
    Prop where
  ref : ∃ ref ∈ task.proposes.getD [], ref.workflow = workflow ∧ ref.transition = transition
  table : ∃ w ∈ spec.workflows.getD [], w.name = workflow ∧ table = entityTable w.entity

def ProposeRequest.DeclaredBy (p : ProposeRequest) (spec : AppSpec) (task : AgentTaskDef) : Prop :=
  Declares spec task p.entityTable p.workflow p.transition

def ProposeRequest.stmt (p : ProposeRequest) (identity : AgentIdentity) (id : Uuid)
    (createdAt : Rfc3339) : Stmt :=
  .insertProposal id identity.id p.entityTable p.recordId p.workflow p.transition p.rationale createdAt

/-- A command that is no statement. -/
def isService {pg : Postgres} : Cmd (store pg) → Bool
  | .tx _ | .query _ => false
  | _ => true

/-- The statement that inserts a record. -/
def appendStmt (sha256 : String → String) (tail : Option AuditRecord) (input : AuditRecordInput)
    (now : Rfc3339) : Stmt :=
  .insertAudit (appendRecord sha256 tail
    { input with attributes := some (scrubAttributes input.attributes).1 } now.text) now

/-- The commands on behalf of a task that may propose what `proposes` says. -/
inductive Does (pg : Postgres) (sha256 : String → String) (identity : AgentIdentity)
    (task : AgentTaskDef) (proposes : ProposeRequest → Prop) : Cmd (store pg) → Prop where
  | service {k} : isService k = true → Does pg sha256 identity task proposes k
  | lockChainTail : Does pg sha256 identity task proposes (.tx .lockChainTail)
  | selectTail : Does pg sha256 identity task proposes (.tx .selectTail)
  | audit {input tail now event} : input.event = ofString event →
      event ≠ "agent.transition_proposed" →
      Does pg sha256 identity task proposes (.tx (appendStmt sha256 tail input now))
  | proposed {p id tail now} : proposes p → Fits pg identity p →
      Does pg sha256 identity task proposes
        (.tx (appendStmt sha256 tail (proposedRecord identity task p id) now))
  | proposal {p id createdAt} : proposes p →
      Does pg sha256 identity task proposes (.tx (p.stmt identity id createdAt))

section Confinement

variable {pg : Postgres} {ε α : Type} [Fault ε] {P : Cmd (store pg) → Prop}
  {sha256 : String → String} {input : AuditRecordInput}

theorem confined_tx_bind {s : Stmt} {f : s.Reply → Async pg ε α} (hs : P (.tx s))
    (hf : ∀ r, (Cmd.tx s : Cmd (store pg)).Answers r → Confined P (f r)) :
    Confined P (tx s >>= f) :=
  confined_perform_bind hs hf

theorem confined_ext_bind {x : Ext} {f : x.Answer → Async pg ε α} (hx : P (.ext x))
    (hf : ∀ r, Confined P (f r)) : Confined P (ext x >>= f) :=
  confined_perform_bind hx fun r _ => hf r

theorem confined_transaction {fn : Async pg ε α} (hP : ∀ k, isService k = true → P k)
    (hfn : Confined P fn) : Confined P (transaction fn) := by
  apply confined_perform_bind (hP _ rfl)
  intro _ _
  apply Confined.bind
  · apply Confined.result
    apply confined_perform_bind (hP _ rfl)
    intro _ _
    apply hfn.bind
    intro value
    exact confined_perform_bind (hP _ rfl) fun _ _ => trivial
  · intro outcome
    cases outcome with
    | ok value => exact confined_perform_bind (hP _ rfl) fun _ _ => trivial
    | error error =>
      apply (confined_attempt (hP _ rfl)).bind
      intro _
      exact confined_perform_bind (hP _ rfl) fun _ _ => trivial

theorem confined_appendInTransaction {logged : Bool} (hP : ∀ k, isService k = true → P k)
    (hlock : P (.tx .lockChainTail)) (htail : P (.tx .selectTail))
    (hinsert : ∀ tail now, P (.tx (appendStmt sha256 tail input now))) :
    Confined P (Runtime.appendInTransaction sha256 logged input : Async pg ε AuditRecord) := by
  have hscrubbed : Confined P (appendScrubbed sha256
      { input with attributes := some (scrubAttributes input.attributes).1 } :
        Async pg ε AuditRecord) := by
    apply confined_tx_bind hlock
    intro _ _
    apply confined_tx_bind htail
    intro tail _
    apply confined_ext_bind (hP _ rfl)
    intro now
    exact confined_tx_bind (hinsert _ now) fun _ _ => trivial
  unfold Runtime.appendInTransaction
  dsimp only
  split
  · exact confined_ext_bind (hP _ rfl) fun _ => hscrubbed
  · exact hscrubbed

end Confinement

section Runtime

variable {pg : Postgres} {sha256 : String → String} {deps : CreateAgentRuntimeDeps}
  {identity : AgentIdentity} {task : AgentTaskDef} {proposes : ProposeRequest → Prop}

theorem confined_append {input : AuditRecordInput} (event : String)
    (hevent : input.event = ofString event) (hne : event ≠ "agent.transition_proposed") :
    Confined (Does pg sha256 identity task proposes)
      (append sha256 input : Async pg Thrown AuditRecord) := by
  apply confined_transaction fun _ => .service
  apply confined_appendInTransaction (fun _ => .service) .lockChainTail .selectTail
  intro tail now
  exact .audit hevent hne

theorem confined_callTool {req : ToolCallRequest} :
    Confined (Does pg sha256 identity task proposes)
      (callTool sha256 deps identity task req : Async pg Thrown ToolCallResult) := by
  unfold callTool
  split
  · trivial
  split
  · trivial
  split
  · trivial
  apply confined_ext_bind (.service rfl)
  intro decision
  apply (confined_append "agent.tool_call" rfl (by decide)).result.bind
  intro appended
  cases appended with
  | error err => trivial
  | ok record =>
    dsimp only
    split
    · trivial
    apply confined_ext_bind (.service rfl)
    intro id
    apply confined_ext_bind (.service rfl)
    intro executed
    cases executed with
    | error message => trivial
    | ok result =>
      apply confined_ext_bind (.service rfl)
      intro durationMs
      apply (confined_append "agent.tool_result" rfl (by decide)).result.bind
      intro _
      trivial

theorem fits_of_answers {p : ProposeRequest} {id : Uuid} {createdAt : Rfc3339} {r : Unit}
    (h : (Cmd.tx (p.stmt identity id createdAt) : Cmd (store pg)).Answers r) :
    Fits pg identity p := by
  obtain ⟨choice, κ, ws, hexec⟩ := h
  simp only [ProposeRequest.stmt, Stmt.exec, Option.bind_eq_bind, Option.bind_eq_some_iff,
    Option.pure_def, Option.guard_eq_some'] at hexec
  obtain ⟨uuid, -, record, hrecord, instant, -, -, htexts, -⟩ := hexec
  refine ⟨by rw [hrecord]; rfl, ?_⟩
  exact List.all_eq_true.mp htexts

theorem confined_propose {p : ProposeRequest} (hp : proposes p) :
    Confined (Does pg sha256 identity task proposes)
      (propose sha256 identity task p : Async pg Thrown AgentProposal) := by
  apply confined_transaction fun _ => .service
  apply confined_ext_bind (.service rfl)
  intro id
  apply confined_ext_bind (.service rfl)
  intro createdAt
  apply confined_tx_bind (.proposal hp)
  intro _ hanswer
  apply Confined.bind
  · apply confined_appendInTransaction (fun _ => .service) .lockChainTail .selectTail
    intro tail now
    exact .proposed hp (fits_of_answers hanswer)
  · intro _
    trivial

theorem confined_finish {outcome : AgentTaskOutcome} :
    Confined (Does pg sha256 identity task proposes)
      (finish sha256 identity task outcome : Async pg Thrown Unit) := by
  apply (confined_append "agent.task_finished" rfl (by decide)).bind
  intro _
  trivial

theorem confined_taskStarted {taskName : String} :
    Confined (Does pg sha256 identity task proposes)
      (taskStarted sha256 identity taskName : Async pg Thrown Unit) := by
  apply (confined_append "agent.task_started" rfl (by decide)).result.bind
  intro _
  trivial

theorem confined_runCode {code : TaskCode} (h : ∀ p, Issues code p → proposes p) :
    Confined (Does pg sha256 identity task proposes)
      (runCode sha256 deps identity task code : Async pg Thrown Unit) := by
  induction code with
  | ret a => trivial
  | throw e => trivial
  | call o next ih =>
    have hrest : ∀ r, Confined (Does pg sha256 identity task proposes)
        (runCode sha256 deps identity task (next (some r)) : Async pg Thrown Unit) :=
      fun r => ih (some r) fun p hp => h p (.later hp)
    cases o with
    | callTool req => exact confined_callTool.result.bind hrest
    | propose p => exact (confined_propose (h p .here)).result.bind hrest
    | finish outcome => exact confined_finish.result.bind hrest

end Runtime

section Runs

variable {pg : Postgres} {sha256 : String → String} {deps : CreateAgentRuntimeDeps} {spec : AppSpec}

/-- What a call on behalf of a task does. -/
def AgentCall.Does (pg : Postgres) (sha256 : String → String) (spec : AppSpec) (call : AgentCall)
    (k : Cmd (store pg)) : Prop :=
  ∃ task, call.task spec = some task ∧
    Agents.Does pg sha256 (call.identity spec) task call.Proposes k

theorem confined_run (call : AgentCall) :
    Confined (call.Does pg sha256 spec) (call.run sha256 deps spec : Async pg Thrown Unit) := by
  cases call with
  | started taskName =>
    rw [AgentCall.run]
    cases htask : (tasksByName spec).lookup taskName with
    | none => trivial
    | some task =>
      rw [if_neg (by simp)]
      exact confined_taskStarted.mono fun k hk => ⟨task, htask, hk⟩
  | drive taskName code =>
    rw [AgentCall.run, contextFor]
    cases htask : (tasksByName spec).lookup taskName with
    | none => trivial
    | some task =>
      apply (confined_runCode fun p hp => hp).mono
      intro k hk
      exact ⟨task, htask, hk⟩

variable {identity : AgentIdentity} {task : AgentTaskDef} {proposes : ProposeRequest → Prop}

theorem shows_of_appendStmt {tail : Option AuditRecord} {input : AuditRecordInput}
    {now : Rfc3339} {w : Write}
    (hw : (Cmd.tx (appendStmt sha256 tail input now) : Cmd (store pg)).Writes w) :
    ∃ row, w = .insertAudit row ∧ Shows row input := by
  obtain ⟨choice, κ, r, ws, hexec, hmem⟩ := hw
  simp only [appendStmt, Stmt.exec, Option.bind_eq_bind, Option.bind_eq_some_iff, Option.pure_def,
    Option.some.injEq] at hexec
  obtain ⟨row, hrow, rows, -, -, rfl⟩ := hexec
  exact ⟨row, List.mem_singleton.mp hmem, shows_of_rowOf (rowOf_columnsOf hrow)⟩

theorem fields_of_stmt {p : ProposeRequest} {id : Uuid} {createdAt : Rfc3339} {w : Write}
    (hw : (Cmd.tx (p.stmt identity id createdAt) : Cmd (store pg)).Writes w) :
    Fits pg identity p ∧ ∃ proposal, w = .insertProposal proposal ∧
      proposal.entityTable = p.entityTable ∧ proposal.workflow = p.workflow ∧
      proposal.transition = p.transition := by
  obtain ⟨choice, κ, r, ws, hexec, hmem⟩ := hw
  refine ⟨fits_of_answers ⟨choice, κ, ws, hexec⟩, ?_⟩
  simp only [ProposeRequest.stmt, Stmt.exec, Option.bind_eq_bind, Option.bind_eq_some_iff,
    Option.pure_def, Option.some.injEq] at hexec
  obtain ⟨uuid, -, record, -, instant, -, -, -, -, -, -, rfl⟩ := hexec
  exact ⟨_, List.mem_singleton.mp hmem, rfl, rfl, rfl⟩

theorem Does.of_proposal {k : Cmd (store pg)} (h : Does pg sha256 identity task proposes k)
    {proposal : Proposal} (hw : k.Writes (Write.insertProposal proposal)) :
    ∃ p, proposes p ∧ Fits pg identity p ∧ proposal.entityTable = p.entityTable ∧
      proposal.workflow = p.workflow ∧ proposal.transition = p.transition := by
  cases h with
  | service hk => cases k <;> first | exact False.elim hw | exact absurd hk (by simp [isService])
  | lockChainTail | selectTail =>
    obtain ⟨choice, κ, r, ws, hexec, hmem⟩ := hw
    rw [← (Prod.mk.inj (Option.some.inj hexec)).2] at hmem
    exact absurd hmem List.not_mem_nil
  | audit | proposed =>
    obtain ⟨row, hrow, -⟩ := shows_of_appendStmt hw
    exact absurd hrow (by simp)
  | proposal hp =>
    obtain ⟨hfits, proposal', heq, hfields⟩ := fields_of_stmt hw
    cases heq
    exact ⟨_, hp, hfits, hfields⟩

theorem Does.of_record {k : Cmd (store pg)} (h : Does pg sha256 identity task proposes k)
    {row : AuditRow} (hw : k.Writes (Write.insertAudit row))
    (hevent : row.event = ofString "agent.transition_proposed") :
    ∃ p id, proposes p ∧ Fits pg identity p ∧ Shows row (proposedRecord identity task p id) := by
  cases h with
  | service hk => cases k <;> first | exact False.elim hw | exact absurd hk (by simp [isService])
  | lockChainTail | selectTail =>
    obtain ⟨choice, κ, r, ws, hexec, hmem⟩ := hw
    rw [← (Prod.mk.inj (Option.some.inj hexec)).2] at hmem
    exact absurd hmem List.not_mem_nil
  | audit hinput hne =>
    obtain ⟨row', heq, hshows⟩ := shows_of_appendStmt hw
    cases heq
    rw [hshows.event _ hinput] at hevent
    exact absurd (ofString_injective hevent) hne
  | proposed hp hfits =>
    obtain ⟨row', heq, hshows⟩ := shows_of_appendStmt hw
    cases heq
    exact ⟨_, _, hp, hfits, hshows⟩
  | proposal =>
    obtain ⟨-, proposal, heq, -⟩ := fields_of_stmt hw
    exact absurd heq (by simp)

variable {Client : Type} [DecidableEq Client] {calls : Client → AgentCall} {init : Contents}
  {schedule : List (Client × Choice)} {W : World (store pg) Client Thrown Unit}

/-- When the requests that fit the columns are declared, the proposals and their records are, and a
request that is not declared is refused. -/
theorem proposals_declared
    (hdeclared : ∀ c task p, (calls c).task spec = some task → (calls c).Proposes p →
      Fits pg ((calls c).identity spec) p → p.DeclaredBy spec task)
    (hrun : World.run schedule (agents sha256 deps spec pg calls init) = some W) (c : Client) :
    (∀ proposal, Committed W.history c (.insertProposal proposal) →
      ∃ task, (calls c).task spec = some task ∧
        Declares spec task proposal.entityTable proposal.workflow proposal.transition) ∧
    (∀ row, Committed W.history c (.insertAudit row) →
      row.event = ofString "agent.transition_proposed" →
      ∃ task table recordId workflow transition, (calls c).task spec = some task ∧
        row.subject = some (ofString (table ++ ":" ++ recordId)) ∧
        row.attribute "workflow" = some (ofString workflow) ∧
        row.attribute "transition" = some (ofString transition) ∧
        Declares spec task table workflow transition) ∧
    ∀ task p, (calls c).task spec = some task → (calls c).Proposes p → ¬p.DeclaredBy spec task →
      ∀ e ∈ W.history, e.client = c → ∀ id createdAt,
        e.cmd = .tx (p.stmt ((calls c).identity spec) id createdAt) → e.reply = none := by
  have hdeeds := deeds_of_run (P := fun c => (calls c).Does pg sha256 spec)
    (fun c => confined_run (calls c)) hrun
  refine ⟨?_, ?_, ?_⟩
  · intro proposal hcommitted
    obtain ⟨e, he, rfl, hw⟩ := hcommitted
    obtain ⟨k, ⟨task, htask, hdoes⟩, hwrites⟩ := hdeeds.writes e he _ hw
    obtain ⟨p, hp, hfits, htable, hworkflow, htransition⟩ := hdoes.of_proposal hwrites
    refine ⟨task, htask, ?_⟩
    rw [htable, hworkflow, htransition]
    exact hdeclared _ task p htask hp hfits
  · intro row hcommitted hevent
    obtain ⟨e, he, rfl, hw⟩ := hcommitted
    obtain ⟨k, ⟨task, htask, hdoes⟩, hwrites⟩ := hdeeds.writes e he _ hw
    obtain ⟨p, id, hp, hfits, hshows⟩ := hdoes.of_record hwrites hevent
    refine ⟨task, p.entityTable, p.recordId, p.workflow, p.transition, htask, hshows.subject _ rfl,
      ?_, ?_, hdeclared _ task p htask hp hfits⟩
    · exact hshows.attribute rfl (by simp) (List.mem_cons_of_mem _ List.mem_cons_self) (by decide)
        (by decide)
    · exact hshows.attribute rfl (by simp)
        (List.mem_cons_of_mem _ (List.mem_cons_of_mem _ List.mem_cons_self)) (by decide) (by decide)
  · intro task p htask hp hundeclared e he hclient id createdAt hcmd
    cases hreply : e.reply with
    | none => rfl
    | some r =>
      have hanswers := hdeeds.replies e he r hreply
      apply absurd (hdeclared c task p htask hp ?_) hundeclared
      obtain ⟨client, k, reply, ws⟩ := e
      obtain rfl : k = _ := hcmd
      exact fits_of_answers hanswers

/-- A task that may propose to approve a vendor. -/
def reviewer : AgentTaskDef where
  name := "review"
  proposes := some [{ workflow := "vendor-approval", transition := "approve" }]

def reviewApp : AppSpec := { vendorApp with specVersion := .v0_2, agents := some [reviewer] }

def noTools : CreateAgentRuntimeDeps where
  tools := []
  validate _ _ := none
  driverMessage := []

def proposal (workflow transition : String) : ProposeRequest where
  entityTable := "vendor"
  recordId := vendorId
  workflow
  transition
  rationale := "reviewed"

/-- The code of a task that makes one proposal. -/
def proposing (p : ProposeRequest) : AgentCall :=
  .drive "review" (.call (.propose p) fun _ => .ret ())

theorem task_proposing {p : ProposeRequest} : (proposing p).task reviewApp = some reviewer := by
  show (tasksByName reviewApp).lookup "review" = some reviewer
  decide

def proposed (history : History pg Client) : List Proposal :=
  history.flatMap fun e => e.writes.filterMap fun
    | .insertProposal proposal => some proposal
    | _ => none

omit [DecidableEq Client] in
theorem committed_of_mem_proposed {history : History pg Client} {proposal : Proposal}
    (h : proposal ∈ proposed history) : ∃ c, Committed history c (.insertProposal proposal) := by
  obtain ⟨e, he, hmem⟩ := List.mem_flatMap.mp h
  obtain ⟨w, hw, heq⟩ := List.mem_filterMap.mp hmem
  split at heq
  · rw [← Option.some.inj heq]
    exact ⟨e.client, e, he, rfl, hw⟩
  · exact absurd heq (by simp)

theorem proposals_declared_approve :
    ∃ W, World.run (List.replicate 11 ((), untroubled))
        (agents lengthHash noTools reviewApp postgresText
          (fun _ => proposing (proposal "vendor-approval" "approve")) noVendor) = some W ∧
      ∃ stored, Committed W.history () (.insertProposal stored) ∧ ∃ task,
        (proposing (proposal "vendor-approval" "approve")).task reviewApp = some task ∧
          Declares reviewApp task stored.entityTable stored.workflow stored.transition := by
  have hsome : (World.run (List.replicate 11 ((), untroubled))
      (agents lengthHash noTools reviewApp postgresText
        (fun _ => proposing (proposal "vendor-approval" "approve")) noVendor)).map
      (fun W => (proposed W.history).length) = some 1 := by decide +kernel
  obtain ⟨W, hrun, hlength⟩ := Option.map_eq_some_iff.mp hsome
  obtain ⟨stored, hstored⟩ := List.exists_mem_of_length_pos (hlength ▸ Nat.one_pos)
  obtain ⟨c, hcommitted⟩ := committed_of_mem_proposed hstored
  refine ⟨W, hrun, stored, hcommitted, (proposals_declared ?_ hrun ()).1 stored hcommitted⟩
  intro c task p htask hp _
  rw [task_proposing] at htask
  cases hp with
  | here =>
    rw [← Option.some.inj htask]
    exact ⟨⟨_, List.mem_singleton_self _, rfl, rfl⟩, vendorApproval, List.mem_cons_self, rfl,
      by decide⟩
  | later hp => cases hp

/-- The risk of a vendor is closed by anyone, and the task does not propose it. -/
theorem undeclared_proposal_stored :
    reviewApp.valid = true ∧ ∃ W, World.run (List.replicate 11 ((), untroubled))
        (agents lengthHash noTools reviewApp postgresText
          (fun _ => proposing (proposal "risk-review" "close")) noVendor) = some W ∧
      ∃ stored, Committed W.history () (.insertProposal stored) ∧
        ¬∃ task, (proposing (proposal "risk-review" "close")).task reviewApp = some task ∧
          Declares reviewApp task stored.entityTable stored.workflow stored.transition := by
  have hsome : (World.run (List.replicate 11 ((), untroubled))
      (agents lengthHash noTools reviewApp postgresText
        (fun _ => proposing (proposal "risk-review" "close")) noVendor)).map
      (fun W => (proposed W.history).map (·.workflow)) = some ["risk-review"] := by decide +kernel
  refine ⟨by decide +kernel, ?_⟩
  obtain ⟨W, hrun, hworkflows⟩ := Option.map_eq_some_iff.mp hsome
  obtain ⟨stored, hstored, hworkflow⟩ : ∃ stored ∈ proposed W.history,
      stored.workflow = "risk-review" :=
    List.mem_map.mp (hworkflows ▸ List.mem_singleton_self _)
  obtain ⟨c, hcommitted⟩ := committed_of_mem_proposed hstored
  refine ⟨W, hrun, stored, hcommitted, ?_⟩
  intro hdeclared
  obtain ⟨task, htask, hdeclares⟩ := hdeclared
  rw [task_proposing] at htask
  obtain ⟨ref, href, hname, -⟩ := hdeclares.ref
  rw [← Option.some.inj htask] at href
  obtain rfl := List.mem_singleton.mp href
  rw [hworkflow] at hname
  exact absurd hname (by decide)

end Runs

end OpenRupiv.Agents
