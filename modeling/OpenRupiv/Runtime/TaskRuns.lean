import OpenRupiv.Lib.Interpret
import OpenRupiv.Runtime.A2a
import OpenRupiv.Runtime.Admin

/-!
# Task runs

`POST /admin/agents/:task/run` of `packages/runtime/src/admin-agents.ts` and `handleSendMessage` of
`packages/runtime/src/a2a.ts` over the calls that they make, with `contextFor` and `finish` as
calls of their own.
-/

namespace OpenRupiv.Runtime

open Js Lib Spec Audit

/-- What `contextFor` returns, without the operations. -/
structure AgentContext where
  identity : Agents.AgentIdentity
  task : AgentTaskDef

inductive TaskCall where
  | authorize (taskName : String) (session : Option User)
  | auditBestEffort (input : AuditRecordInput)
  | decide (input : PolicyInput)
  /-- The error of its reply is an `AgentTaskNotFoundError`; it fails with any other error. -/
  | contextFor (taskName : String)
  /-- The error of its reply is the message of what the procedure threw. -/
  | procedure (taskName : String) (ctx : AgentContext) (input : Json)
  | finish (ctx : AgentContext) (outcome : AgentTaskOutcome)
  | randomUUID
  | logTaskLookupFailed (skill clientId : String)
  | logTaskFailed (skill clientId : String)
  | insertTask (id : Uuid) (clientId skill : String) (status : TaskStatus) (result : Value)

@[reducible] def TaskCall.Reply : TaskCall → Type
  | .auditBestEffort _ => Bool
  | .decide _ => PolicyDecision
  | .contextFor _ => Except Text AgentContext
  | .procedure _ _ _ => Except Text AgentTaskOutcome
  | .randomUUID => Uuid
  | _ => Unit

/-- A procedure that fails without a message throws an error with an empty one. -/
def caught : Option (Except Text AgentTaskOutcome) → Except Text AgentTaskOutcome
  | none => .error []
  | some answer => answer

def statusOf (outcome : AgentTaskOutcome) : TaskStatus :=
  if isSuccessOutcome outcome then .completed else .failed

def errorOutcome (message : Text) : AgentTaskOutcome where
  reason := ofString "error"
  detail := some (literal [("message", ofText message)])

namespace TaskCall

variable {ε : Type}

abbrev await [Fault ε] (k : TaskCall) : Prog TaskCall.Reply ε k.Reply := Prog.perform k

/-- A call in a `try`. -/
abbrev tried (k : TaskCall) : Prog TaskCall.Reply ε (Option k.Reply) := Prog.issue k

abbrev logged (k : TaskCall) : Prog TaskCall.Reply ε Unit := Prog.attempt k

/-- What the route throws. -/
inductive TriggerError where
  | fault
  /-- `ERR_NOT_FOUND`, 404. -/
  | notFound (message : Text)
  /-- `ERR_AGENT_PROCEDURE_UNREGISTERED`, 501. -/
  | procedureUnregistered (message : Text)
  /-- What the procedure threw. -/
  | procedure (message : Text)

instance : Fault TriggerError := ⟨.fault⟩

def unregistered (taskName : String) : Text :=
  ofString "no registered procedure for task " ++ jsonText (ofString taskName)

/-- The status and the outcome of a 202. -/
def triggerTask (procedures : List String) (session : Option User) (taskName : String)
    (body : Json) : Prog TaskCall.Reply TriggerError (TaskStatus × AgentTaskOutcome) := do
  await (.authorize taskName session)
  let found ← await (.contextFor taskName)
  match found with
  | .error message => .throw (.notFound message)
  | .ok ctx =>
      if taskName ∉ procedures then do
        await (.finish ctx (errorOutcome (unregistered taskName)))
        .throw (.procedureUnregistered (ofString "agent task " ++ jsonText (ofString taskName) ++
          ofString " has no registered procedure on this deployment"))
      else do
        let answer ← tried (.procedure taskName ctx body)
        match caught answer with
        | .error message => do
            await (.finish ctx (errorOutcome message))
            .throw (.procedure message)
        | .ok outcome => do
            await (.finish ctx outcome)
            return (statusOf outcome, outcome)

section SendMessage

variable (deps : A2aDeps) (client : A2aClientEntry)

def runProcedure (skill : String) (ctx : AgentContext) (input : Json) :
    Prog TaskCall.Reply Thrown (TaskStatus × Value) := do
  let answer ← tried (.procedure skill ctx input)
  match caught answer with
  | .error message => do
      logged (.logTaskFailed skill client.clientId)
      await (.finish ctx (errorOutcome message))
      return (.failed, messageValue (ofString "task execution failed"))
  | .ok outcome => do
      await (.finish ctx outcome)
      return (statusOf outcome, outcomeValue outcome)

def runSkill (skill : String) (input : Json) :
    Prog TaskCall.Reply Thrown (TaskStatus × Value) :=
  if skill ∉ deps.procedures then
    return (.failed, messageValue (ofString "skill " ++ jsonText (ofString skill) ++
      ofString " has no registered procedure on this deployment"))
  else do
    let found ← tried (.contextFor skill)
    match found with
    | none => do
        logged (.logTaskLookupFailed skill client.clientId)
        return (.failed, messageValue (ofString "task lookup failed"))
    | some (.error message) => return (.failed, messageValue message)
    | some (.ok ctx) => runProcedure client skill ctx input

def runTask (skill : String) (input : Json) : Prog TaskCall.Reply Thrown SendMessageReply := do
  let taskId ← await .randomUUID
  let (status, result) ← runSkill deps client skill input
  await (.insertTask taskId client.clientId skill status result)
  let _ ← await (.auditBestEffort (a2aResultRecord client skill taskId status))
  return .result taskId status result.json

def callSkill (skill : String) (input : Json) : Prog TaskCall.Reply Thrown SendMessageReply := do
  let decision ← await (.decide (skillInput client skill))
  let audited ← await (.auditBestEffort (skillRecord client skill decision))
  if audited = false then return .error (-32000) (ofString "audit unavailable")
  else if decision.allow = false then
    return .error (-32001) (ofString "Forbidden: " ++ decision.reason)
  else runTask deps client skill input

def handleSendMessage (params : Json) : Prog TaskCall.Reply Thrown SendMessageReply :=
  let skill := Mcp.textOf (Mcp.property params "skill")
  match findDataPart (messageParts params) with
  | .error _ => .throw .fault
  | .ok dataPart =>
      match client.allowedSkills.find? fun s => skill = some (ofString s) ∧ s ≠ "" with
      | some allowed => callSkill deps client allowed (messageInput dataPart)
      | none => do
          let audited ← await (.auditBestEffort (notAllowedRecord client skill))
          if audited then return skillNotAllowed client skill
          else return .error (-32000) (ofString "audit unavailable")

end SendMessage

variable {pg : Postgres} (sha256 : String → String) (spec : AppSpec)

/-- What a call does; `contextFor` of the agent runtime throws nothing but its own error, so that a
failed lookup is not logged. -/
def program : (k : TaskCall) → Async pg Thrown k.Reply
  | .authorize taskName session =>
      authorizeAgents sha256 (spec.app.roles.getD []) taskName session
  | .auditBestEffort input => Runtime.auditBestEffort sha256 input
  | .decide input => ext (.decide input)
  | .contextFor taskName =>
      return match (Agents.tasksByName spec).lookup taskName with
      | none => .error (ofString "no agent task named " ++ jsonText (ofString taskName))
      | some task => .ok { identity := Agents.identityOf spec taskName, task }
  | .procedure taskName _ input => ext (.dispatch (.procedure taskName input))
  | .finish ctx outcome => Agents.finish sha256 ctx.identity ctx.task outcome
  | .randomUUID => ext .random
  | .logTaskLookupFailed _ _ => return ()
  | .logTaskFailed skill clientId => log (.a2aTaskFailed skill clientId)
  | .insertTask id clientId skill status result =>
      query (.insertTask id clientId skill status result)

section Refinement

variable (deps : A2aDeps) (client : A2aClientEntry)

theorem interpret_runProcedure (skill : String) (task : AgentTaskDef) (input : Json) :
    Prog.interpret (@program pg sha256 deps.spec) (runProcedure client skill
      { identity := Agents.identityOf deps.spec skill, task } input) =
      Runtime.runProcedure sha256 deps client skill task input := by
  unfold runProcedure Runtime.runProcedure
  rw [Prog.interpret_issue_bind]
  refine congrArg _ (funext fun answer => ?_)
  cases answer with
  | error message => rfl
  | ok outcome => rfl

theorem interpret_runSkill (skill : String) (input : Json) :
    Prog.interpret (@program pg sha256 deps.spec) (runSkill deps client skill input) =
      Runtime.runSkill sha256 deps client skill input := by
  unfold runSkill Runtime.runSkill
  split
  · rfl
  · cases hlookup : (Agents.tasksByName deps.spec).lookup skill with
    | none =>
      rw [Prog.interpret_issue_bind, program, hlookup]
      rfl
    | some task =>
      rw [Prog.interpret_issue_bind, program, hlookup]
      exact interpret_runProcedure sha256 deps client skill task input

theorem interpret_handleSendMessage (params : Json) :
    Prog.interpret (@program pg sha256 deps.spec) (handleSendMessage deps client params) =
      Runtime.handleSendMessage sha256 deps client params := by
  have htask : ∀ skill input, Prog.interpret (@program pg sha256 deps.spec)
      (runTask deps client skill input) = Runtime.runTask sha256 deps client skill input := by
    intro skill input
    unfold runTask Runtime.runTask
    rw [Prog.interpret_perform_bind]
    refine congrArg _ (funext fun taskId => ?_)
    rw [Prog.interpret_bind, interpret_runSkill]
    rfl
  have hcall : ∀ skill input, Prog.interpret (@program pg sha256 deps.spec)
      (callSkill deps client skill input) = Runtime.callSkill sha256 deps client skill input := by
    intro skill input
    unfold callSkill Runtime.callSkill
    rw [Prog.interpret_perform_bind]
    refine congrArg _ (funext fun decision => ?_)
    rw [Prog.interpret_perform_bind]
    refine congrArg _ (funext fun audited => ?_)
    split
    · rfl
    split
    · rfl
    · exact htask skill input
  unfold handleSendMessage Runtime.handleSendMessage
  cases findDataPart (messageParts params) with
  | error e => rfl
  | ok dataPart =>
    dsimp only
    cases client.allowedSkills.find? fun s =>
        Mcp.textOf (Mcp.property params "skill") = some (ofString s) ∧ s ≠ "" with
    | some allowed => exact hcall _ _
    | none =>
      dsimp only
      rw [Prog.interpret_perform_bind]
      refine congrArg _ (funext fun audited => ?_)
      split <;> rfl

end Refinement

inductive Lifecycle where
  | started (ctx : AgentContext)
  | finished (ctx : AgentContext)

/-- A `contextFor` that succeeded, or a `finish`, whether or not its append succeeded. -/
def lifecycle : Prog.Answered TaskCall.Reply → Option Lifecycle
  | ⟨.contextFor _, some (.ok ctx)⟩ => some (.started ctx)
  | ⟨.finish ctx _, _⟩ => some (.finished ctx)
  | _ => none

/-- No task was started and none finished, or one was started and then finished once. -/
def FinishedOnce (trace : List (Prog.Answered TaskCall.Reply)) : Prop :=
  trace.filterMap lifecycle = [] ∨
    ∃ ctx, trace.filterMap lifecycle = [.started ctx, .finished ctx]

/-- The procedure returned this outcome. -/
def Returned (trace : List (Prog.Answered TaskCall.Reply)) (outcome : AgentTaskOutcome) : Prop :=
  ∃ taskName ctx input,
    (⟨.procedure taskName ctx input, some (.ok outcome)⟩ : Prog.Answered TaskCall.Reply) ∈ trace

/-- A call that has no part in a lifecycle. -/
def Silent (a : Prog.Answered TaskCall.Reply) : Prop :=
  lifecycle a = none ∧ ∀ taskName ctx input, a.1 ≠ .procedure taskName ctx input

/-- The tasks of a run are finished, and what it reports is the status of the outcome. -/
structure Accounted {α ε : Type} (status : α → Option TaskStatus)
    (trace : List (Prog.Answered TaskCall.Reply)) (o : Except ε α) : Prop where
  finished : FinishedOnce trace
  reported : ∀ outcome a, Returned trace outcome → o = .ok a → status a = some (statusOf outcome)

/-- The same for what follows once the context is there. -/
structure Finishes {α ε : Type} (ctx : AgentContext) (status : α → Option TaskStatus)
    (trace : List (Prog.Answered TaskCall.Reply)) (o : Except ε α) : Prop where
  finished : trace.filterMap lifecycle = [.finished ctx]
  reported : ∀ outcome a, Returned trace outcome → o = .ok a → status a = some (statusOf outcome)

section Traces

variable {α ε : Type} {status : α → Option TaskStatus}
  {trace rest : List (Prog.Answered TaskCall.Reply)} {o : Except ε α} {ctx : AgentContext} {outcome : AgentTaskOutcome}
  {a : Prog.Answered TaskCall.Reply}

theorem not_returned_nil : ¬ Returned [] outcome := by
  rintro ⟨taskName, ctx, input, hmem⟩
  exact absurd hmem List.not_mem_nil

theorem returned_cons_iff (ha : ∀ taskName ctx input, a.1 ≠ .procedure taskName ctx input) :
    Returned (a :: trace) outcome ↔ Returned trace outcome := by
  constructor
  · intro h
    obtain ⟨taskName, ctx, input, hmem⟩ := h
    refine ⟨taskName, ctx, input, (List.mem_cons.mp hmem).resolve_left ?_⟩
    rintro rfl
    exact ha _ _ _ rfl
  · intro h
    obtain ⟨taskName, ctx, input, hmem⟩ := h
    exact ⟨taskName, ctx, input, List.mem_cons_of_mem _ hmem⟩

theorem accounted_nil : Accounted status [] o :=
  ⟨.inl rfl, fun _ _ h => absurd h not_returned_nil⟩

theorem Accounted.cons (ha : Silent a) (h : Accounted status trace o) :
    Accounted status (a :: trace) o where
  finished := by
    unfold FinishedOnce
    rw [List.filterMap_cons_none ha.1]
    exact h.finished
  reported outcome b hreturned := h.reported outcome b ((returned_cons_iff ha.2).mp hreturned)

theorem Finishes.started {taskName : String} (h : Finishes ctx status trace o) :
    Accounted status (⟨.contextFor taskName, some (.ok ctx)⟩ :: trace) o where
  finished := .inr ⟨ctx, by
    rw [@List.filterMap_cons_some _ _ lifecycle _ _ (.started ctx) rfl, h.finished]⟩
  reported outcome b hreturned := h.reported outcome b ((returned_cons_iff (by simp)).mp hreturned)

theorem Accounted.append {β : Type} {status' : β → Option TaskStatus} {o' : Except ε β}
    (h : Accounted status trace o) (hrest : ∀ a ∈ rest, Silent a)
    (ho : ∀ b, o' = .ok b → ∃ a, o = .ok a ∧ status a = status' b) :
    Accounted status' (trace ++ rest) o' where
  finished := by
    unfold FinishedOnce
    rw [List.filterMap_append, List.filterMap_eq_nil_iff.mpr fun a ha => (hrest a ha).1,
      List.append_nil]
    exact h.finished
  reported outcome b hreturned hb := by
    obtain ⟨a, ha, heq⟩ := ho b hb
    rw [← heq]
    refine h.reported outcome a ?_ ha
    obtain ⟨taskName, ctx, input, hmem⟩ := hreturned
    refine ⟨taskName, ctx, input, (List.mem_append.mp hmem).resolve_right fun hin => ?_⟩
    exact (hrest _ hin).2 _ _ _ rfl

end Traces

section Runs

variable {α ε : Type} {status : α → Option TaskStatus} {trace : List (Prog.Answered TaskCall.Reply)}
  {o : Except ε α} {ctx : AgentContext}

/-- A `finish`, and how the handler ends after it. -/
theorem run_finish [Fault ε] {done : AgentTaskOutcome} (result : Except ε α)
    (h : (await (.finish ctx done) >>= fun _ => Prog.ofExcept result).Run trace o) :
    trace.filterMap lifecycle = [.finished ctx] ∧ (∀ outcome, ¬ Returned trace outcome) ∧
      ∀ a, o = .ok a → result = .ok a := by
  have hsingle : ∀ r outcome,
      ¬ Returned [(⟨.finish ctx done, r⟩ : Prog.Answered TaskCall.Reply)] outcome := by
    intro r outcome
    rw [returned_cons_iff (by simp)]
    exact not_returned_nil
  rcases Prog.run_perform_bind_iff.mp h with ⟨r, rest, rfl, hrest⟩ | ⟨rfl, rfl⟩
  · obtain ⟨rfl, rfl⟩ := Prog.run_ofExcept_iff.mp hrest
    exact ⟨rfl, hsingle _, fun _ h => h⟩
  · exact ⟨rfl, hsingle _, fun _ h => absurd h (by simp)⟩

theorem caught_eq_ok_iff {answer : Option (Except Text AgentTaskOutcome)}
    {outcome : AgentTaskOutcome} : caught answer = .ok outcome ↔ answer = some (.ok outcome) := by
  cases answer with
  | none => simp [caught]
  | some answer => simp [caught]

/-- A procedure, what it returned or threw, and the `finish` of its context. -/
theorem run_procedure {taskName : String} {input : Json}
    {f : Option (Except Text AgentTaskOutcome) → Prog TaskCall.Reply ε α}
    (h : (tried (.procedure taskName ctx input) >>= f).Run trace o)
    (hf : ∀ answer rest, (f answer).Run rest o → rest.filterMap lifecycle = [.finished ctx] ∧
      (∀ outcome, ¬ Returned rest outcome) ∧
      ∀ outcome a, caught answer = .ok outcome → o = .ok a → status a = some (statusOf outcome)) :
    Finishes ctx status trace o := by
  obtain ⟨answer, rest, rfl, hrest⟩ := Prog.run_issue_bind_iff.mp h
  obtain ⟨hfinished, hnone, hstatus⟩ := hf answer rest hrest
  constructor
  · rw [List.filterMap_cons_none rfl]
    exact hfinished
  · intro outcome a hreturned ho
    obtain ⟨name, ctx', input', hmem⟩ := hreturned
    rcases List.mem_cons.mp hmem with heq | hin
    · simp only [Sigma.mk.injEq, TaskCall.procedure.injEq] at heq
      obtain ⟨⟨rfl, rfl, rfl⟩, hanswer⟩ := heq
      exact hstatus outcome a (caught_eq_ok_iff.mpr (eq_of_heq hanswer).symm) ho
    · exact absurd ⟨name, ctx', input', hin⟩ (hnone outcome)

theorem triggerTask_run {procedures : List String} {session : Option User} {taskName : String}
    {body : Json} {o : Except TriggerError (TaskStatus × AgentTaskOutcome)}
    (h : (triggerTask procedures session taskName body).Run trace o) :
    Accounted (some ∘ Prod.fst) trace o := by
  unfold triggerTask at h
  rcases Prog.run_perform_bind_iff.mp h with ⟨_, rest, rfl, hrest⟩ | ⟨rfl, -⟩
  case inr => exact accounted_nil.cons ⟨rfl, by simp⟩
  refine Accounted.cons ⟨rfl, by simp⟩ ?_
  rcases Prog.run_perform_bind_iff.mp hrest with ⟨found, rest, rfl, hfound⟩ | ⟨rfl, -⟩
  case inr => exact accounted_nil.cons ⟨rfl, by simp⟩
  cases found with
  | error message =>
    obtain ⟨rfl, -⟩ := Prog.run_throw_iff.mp hfound
    exact accounted_nil.cons ⟨rfl, by simp⟩
  | ok ctx =>
    apply Finishes.started
    dsimp only at hfound
    split at hfound
    · obtain ⟨hfinished, hnone, -⟩ := run_finish (.error _) hfound
      exact ⟨hfinished, fun outcome _ hreturned => absurd hreturned (hnone outcome)⟩
    · refine run_procedure hfound fun answer rest hrest => ?_
      cases hcaught : caught answer with
      | error message =>
        rw [hcaught] at hrest
        obtain ⟨hfinished, hnone, -⟩ := run_finish (.error _) hrest
        exact ⟨hfinished, hnone, fun _ _ h => absurd h (by simp)⟩
      | ok outcome =>
        rw [hcaught] at hrest
        obtain ⟨hfinished, hnone, hreport⟩ := run_finish (.ok _) hrest
        refine ⟨hfinished, hnone, fun outcome' report heq ho => ?_⟩
        obtain rfl := Except.ok.inj heq
        rw [← Except.ok.inj (hreport report ho)]
        rfl

section SendMessage

variable {deps : A2aDeps} {client : A2aClientEntry} {skill : String} {input : Json}

theorem runProcedure_run {o : Except Thrown (TaskStatus × Value)}
    (h : (runProcedure client skill ctx input).Run trace o) :
    Finishes ctx (some ∘ Prod.fst) trace o := by
  unfold runProcedure at h
  refine run_procedure h fun answer rest hrest => ?_
  cases hcaught : caught answer with
  | error message =>
    rw [hcaught] at hrest
    obtain ⟨r, rest, rfl, hlogged⟩ := Prog.run_attempt_bind_iff.mp hrest
    obtain ⟨hfinished, hnone, -⟩ := run_finish (.ok _) hlogged
    refine ⟨?_, fun outcome hreturned => ?_, fun _ _ h => absurd h (by simp)⟩
    · rw [List.filterMap_cons_none rfl]
      exact hfinished
    · exact hnone outcome ((returned_cons_iff (by simp)).mp hreturned)
  | ok outcome =>
    rw [hcaught] at hrest
    obtain ⟨hfinished, hnone, hreport⟩ := run_finish (.ok _) hrest
    refine ⟨hfinished, hnone, fun outcome' report heq ho => ?_⟩
    obtain rfl := Except.ok.inj heq
    rw [← Except.ok.inj (hreport report ho)]
    rfl

theorem runSkill_run {o : Except Thrown (TaskStatus × Value)}
    (h : (runSkill deps client skill input).Run trace o) : Accounted (some ∘ Prod.fst) trace o := by
  unfold runSkill at h
  split at h
  · obtain ⟨rfl, -⟩ := Prog.run_ret_iff.mp h
    exact accounted_nil
  obtain ⟨found, rest, rfl, hrest⟩ := Prog.run_issue_bind_iff.mp h
  rcases found with _ | message | ctx
  · obtain ⟨r, rest, rfl, hlogged⟩ := Prog.run_attempt_bind_iff.mp hrest
    obtain ⟨rfl, -⟩ := Prog.run_ret_iff.mp hlogged
    exact (accounted_nil.cons ⟨rfl, by simp⟩).cons ⟨rfl, by simp⟩
  · obtain ⟨rfl, -⟩ := Prog.run_ret_iff.mp hrest
    exact accounted_nil.cons ⟨rfl, by simp⟩
  · exact (runProcedure_run hrest).started

/-- The status of a reply; an error has none. -/
def reportedStatus : SendMessageReply → Option TaskStatus
  | .result _ status _ => some status
  | .error _ _ => none

theorem runTask_run {o : Except Thrown SendMessageReply}
    (h : (runTask deps client skill input).Run trace o) : Accounted reportedStatus trace o := by
  unfold runTask at h
  rcases Prog.run_perform_bind_iff.mp h with ⟨taskId, rest, rfl, hdrawn⟩ | ⟨rfl, -⟩
  case inr => exact accounted_nil.cons ⟨rfl, by simp⟩
  refine Accounted.cons ⟨rfl, by simp⟩ ?_
  rcases Prog.run_bind_iff.mp hdrawn with ⟨⟨status, result⟩, first, last, hskill, hlast, rfl⟩ |
    ⟨e, hskill, rfl⟩
  case inr =>
    exact ⟨(runSkill_run hskill).finished, fun _ _ _ ho => absurd ho (by simp)⟩
  -- the row, the record of the result, and the reply with the status of the task
  obtain ⟨hsilent, hreply⟩ : (∀ a ∈ last, Silent a) ∧
      ∀ reply, o = .ok reply → reply = .result taskId status result.json := by
    rcases Prog.run_perform_bind_iff.mp hlast with ⟨_, rest, rfl, hinserted⟩ | ⟨rfl, rfl⟩
    case inr => exact ⟨by simp [Silent, lifecycle], fun _ h => absurd h (by simp)⟩
    rcases Prog.run_perform_bind_iff.mp hinserted with ⟨_, rest, rfl, hrecorded⟩ | ⟨rfl, rfl⟩
    case inr => exact ⟨by simp [Silent, lifecycle], fun _ h => absurd h (by simp)⟩
    obtain ⟨rfl, rfl⟩ := Prog.run_ret_iff.mp hrecorded
    exact ⟨by simp [Silent, lifecycle], fun reply h => (Except.ok.inj h).symm⟩
  refine (runSkill_run hskill).append hsilent fun reply ho => ⟨_, rfl, ?_⟩
  rw [hreply reply ho]
  rfl

theorem handleSendMessage_run {params : Json} {o : Except Thrown SendMessageReply}
    (h : (handleSendMessage deps client params).Run trace o) :
    Accounted reportedStatus trace o := by
  unfold handleSendMessage at h
  dsimp only at h
  split at h
  · obtain ⟨rfl, -⟩ := Prog.run_throw_iff.mp h
    exact accounted_nil
  split at h
  · rcases Prog.run_perform_bind_iff.mp h with ⟨decision, rest, rfl, hdecided⟩ | ⟨rfl, -⟩
    case inr => exact accounted_nil.cons ⟨rfl, by simp⟩
    refine Accounted.cons ⟨rfl, by simp⟩ ?_
    rcases Prog.run_perform_bind_iff.mp hdecided with ⟨audited, rest, rfl, haudited⟩ | ⟨rfl, -⟩
    case inr => exact accounted_nil.cons ⟨rfl, by simp⟩
    refine Accounted.cons ⟨rfl, by simp⟩ ?_
    split at haudited
    · obtain ⟨rfl, -⟩ := Prog.run_ret_iff.mp haudited
      exact accounted_nil
    split at haudited
    · obtain ⟨rfl, -⟩ := Prog.run_ret_iff.mp haudited
      exact accounted_nil
    · exact runTask_run haudited
  · rcases Prog.run_perform_bind_iff.mp h with ⟨audited, rest, rfl, haudited⟩ | ⟨rfl, -⟩
    case inr => exact accounted_nil.cons ⟨rfl, by simp⟩
    refine Accounted.cons ⟨rfl, by simp⟩ ?_
    split at haudited
    · obtain ⟨rfl, -⟩ := Prog.run_ret_iff.mp haudited
      exact accounted_nil
    · obtain ⟨rfl, -⟩ := Prog.run_ret_iff.mp haudited
      exact accounted_nil

end SendMessage

end Runs

/-- Whatever the calls reply and wherever they fail, both routes finish a task that they start, once,
and report the same status for the same outcome. -/
theorem tasks_finished_once (procedures : List String) (session : Option User) (taskName : String)
    (body : Json) (deps : A2aDeps) (client : A2aClientEntry) (params : Json) :
    (∀ trace o, (triggerTask procedures session taskName body).Run trace o → FinishedOnce trace) ∧
      (∀ trace o, (handleSendMessage deps client params).Run trace o → FinishedOnce trace) ∧
      ∀ trace report trace' reply outcome,
        (triggerTask procedures session taskName body).Run trace (.ok report) →
        (handleSendMessage deps client params).Run trace' (.ok reply) →
        Returned trace outcome → Returned trace' outcome →
        reportedStatus reply = some report.1 := by
  refine ⟨fun trace o h => (triggerTask_run h).finished,
    fun trace o h => (handleSendMessage_run h).finished, ?_⟩
  intro trace report trace' reply outcome h h' hreturned hreturned'
  have hadmin := (triggerTask_run h).reported outcome report hreturned rfl
  have ha2a := (handleSendMessage_run h').reported outcome reply hreturned' rfl
  rw [ha2a, ← hadmin]
  rfl

def reviewContext : AgentContext where
  identity := { id := "agent:review@vendors", roles := [] }
  task := { name := "review" }

def proposed : AgentTaskOutcome where
  reason := ofString "proposed"
  detail := none

/-- The review is finished once, also when the record of its end is not appended. -/
theorem tasks_finished_once_review :
    let trigger : List (Prog.Answered TaskCall.Reply) :=
      [⟨.authorize "review" none, some ()⟩, ⟨.contextFor "review", some (.ok reviewContext)⟩,
        ⟨.procedure "review" reviewContext (.obj []), some (.ok proposed)⟩,
        ⟨.finish reviewContext proposed, some ()⟩]
    FinishedOnce trigger ∧
      FinishedOnce (trigger.take 3 ++ [⟨.finish reviewContext proposed, none⟩]) := by
  intro trigger
  have h := tasks_finished_once ["review"] none "review" (.obj []) ⟨audits, [], []⟩ ⟨"c", []⟩
    (.obj [])
  refine ⟨h.1 trigger (.ok (.completed, proposed)) ?_, h.1 _ (.error .fault) ?_⟩
  · exact .call (.call (.call (.call .ret)))
  · exact .call (.call (.call (.call .throw)))

end TaskCall

end OpenRupiv.Runtime
