import OpenRupiv.Agents.Proposals
import OpenRupiv.Lib.Interleaving
import OpenRupiv.Runtime.A2a

/-!
# Tasks of A2A clients

Any number of `SendMessage` and `GetTask` requests, their commands interleaved in any order.  The
statements on `a2a_tasks` are executed on the table; the outcome of every other command is left to
the environment.
-/

namespace OpenRupiv.Runtime

open Js Lib Spec Audit

inductive TaskMethod where
  | sendMessage (params : Json)
  | getTask (params : Json)

/-- A request of a registered client. -/
structure TaskRequest where
  client : A2aClientEntry
  method : TaskMethod

def TaskRequest.clientId (q : TaskRequest) : String := q.client.clientId

def Stmt.onTasks : Stmt → Bool
  | .insertTask _ _ _ _ _ | .selectTask _ _ => true
  | _ => false

/-- A database of which only the tasks are known. -/
def tasksOnly (tasks : List A2aTask) : Contents where
  rows _ _ := none
  approvals := []
  audit := []
  tasks

/-- What the environment decides: a choice for a statement on the tasks, and an answer to any other
command, none when it fails. -/
structure TaskChoice (pg : Postgres) where
  choice : Choice
  answer : (k : Cmd (store pg)) → Option k.Reply
  answers : ∀ {k r}, answer k = some r → k.Answers r

/-- The table of tasks. -/
abbrev taskStore (pg : Postgres) (ρ : Type) : Machine ρ where
  Op := Cmd (store pg)
  Reply := Cmd.Reply
  State := List A2aTask
  Choice := TaskChoice pg
  exec env tasks _ k :=
    match k with
    | .query s =>
        if s.onTasks then
          match perform env.choice (tasksOnly tasks) .closed (.query s : Cmd (store pg)) with
          | some eff =>
              some (some eff.reply, ((store pg).applyAll (tasksOnly tasks) eff.writes).tasks)
          | none => some (none, tasks)
        else some (env.answer (.query s), tasks)
    | k => some (env.answer k, tasks)

section Requests

variable {pg : Postgres} (sha256 : String → String) (deps : A2aDeps) (toNumber : Text → Num)

def TaskRequest.serve (q : TaskRequest) : Async pg Thrown SendMessageReply :=
  match q.method with
  | .sendMessage params => handleSendMessage sha256 deps q.client params
  | .getTask params => handleGetTask toNumber q.client params

/-- The requests before any of them has begun; no task was ever created. -/
def a2a {ρ : Type} (pg : Postgres) (requests : ρ → TaskRequest) :
    (taskStore pg ρ).World Thrown SendMessageReply :=
  Machine.begin (fun r => (requests r).serve sha256 deps toNumber) []

end Requests

section Statements

variable {pg : Postgres} {ρ : Type} {env : TaskChoice pg} {tasks tasks' : List A2aTask} {r : ρ}

/-- An insert fails whatever there is, or adds one row under an id that has to be new. -/
theorem insertTask_cases (env : TaskChoice pg) (r : ρ) (id clientId skill : String)
    (status : TaskStatus) (result : Value) :
    (∀ tasks, (taskStore pg ρ).exec env tasks r
      (.query (.insertTask id clientId skill status result)) = some (none, tasks)) ∨
    ∃ uuid stored, pg.uuid id = some uuid ∧ pg.columns.jsonb result = some stored ∧
      ∀ tasks, (taskStore pg ρ).exec env tasks r
        (.query (.insertTask id clientId skill status result)) =
          if uuid ∈ tasks.map (·.id) then some (none, tasks)
          else some (some (), tasks ++ [⟨uuid, clientId, skill, status, stored.json⟩]) := by
  cases hfails : env.choice.fails with
  | true => exact .inl fun tasks => by simp [Stmt.onTasks, perform, Cmd.fallible, hfails]
  | false =>
    cases huuid : pg.uuid id with
    | none =>
      exact .inl fun tasks => by
        simp [Stmt.onTasks, perform, hfails, proceed, Stmt.exec, huuid]
    | some uuid =>
      cases hstored : pg.columns.jsonb result with
      | none =>
        exact .inl fun tasks => by
          simp [Stmt.onTasks, perform, hfails, proceed, Stmt.exec, huuid, hstored]
      | some stored =>
        cases htext : [clientId, skill].all fun s => (Audit.textColumn (ofString s)).isSome with
        | false =>
          exact .inl fun tasks => by
            simp [Stmt.onTasks, perform, hfails, proceed, Stmt.exec, huuid, hstored, htext]
        | true =>
          refine .inr ⟨uuid, stored, rfl, rfl, fun tasks => ?_⟩
          by_cases hnew : uuid ∈ tasks.map (·.id)
          · have hall : ¬∀ task ∈ tasks, ¬task.id = uuid := by simpa using hnew
            simp [Stmt.onTasks, perform, hfails, proceed, Stmt.exec, huuid, hstored, htext,
              tasksOnly, hnew, hall]
          · have hall : ∀ task ∈ tasks, ¬task.id = uuid := by simpa using hnew
            simp [Stmt.onTasks, perform, hfails, proceed, Stmt.exec, huuid, hstored, htext,
              tasksOnly, hnew, eq_true hall, Engine.applyAll, Contents.apply]

theorem exec_insertTask {id clientId skill : String} {status : TaskStatus} {result : Value}
    {reply : Option Unit}
    (h : (taskStore pg ρ).exec env tasks r (.query (.insertTask id clientId skill status result)) =
      some (reply, tasks')) :
    (reply = none ∧ tasks' = tasks) ∨
    ∃ uuid stored, reply = some () ∧ pg.uuid id = some uuid ∧
      pg.columns.jsonb result = some stored ∧ uuid ∉ tasks.map (·.id) ∧
      tasks' = tasks ++ [⟨uuid, clientId, skill, status, stored.json⟩] := by
  rcases insertTask_cases env r id clientId skill status result with
    hfails | ⟨uuid, stored, huuid, hstored, hexec⟩
  · obtain ⟨rfl, rfl⟩ := Prod.mk.inj (Option.some.inj ((hfails tasks).symm.trans h))
    exact .inl ⟨rfl, rfl⟩
  · rw [hexec] at h
    split at h
    · obtain ⟨rfl, rfl⟩ := Prod.mk.inj (Option.some.inj h)
      exact .inl ⟨rfl, rfl⟩
    · rename_i hnew
      obtain ⟨rfl, rfl⟩ := Prod.mk.inj (Option.some.inj h)
      exact .inr ⟨uuid, stored, rfl, huuid, hstored, hnew, rfl⟩

theorem selectTask_cases (env : TaskChoice pg) (r : ρ) (id clientId : String) :
    (∀ tasks, (taskStore pg ρ).exec env tasks r (.query (.selectTask id clientId)) =
      some (none, tasks)) ∨
    ∃ uuid, pg.uuid id = some uuid ∧
      ∀ tasks, (taskStore pg ρ).exec env tasks r (.query (.selectTask id clientId)) =
        some (some (tasks.find? fun task => task.id = uuid ∧ task.clientId = clientId), tasks) := by
  cases hfails : env.choice.fails with
  | true => exact .inl fun tasks => by simp [Stmt.onTasks, perform, Cmd.fallible, hfails]
  | false =>
    cases huuid : pg.uuid id with
    | none =>
      exact .inl fun tasks => by
        simp [Stmt.onTasks, perform, hfails, proceed, Stmt.exec, huuid]
    | some uuid =>
      refine .inr ⟨uuid, rfl, fun tasks => ?_⟩
      simp [Stmt.onTasks, perform, hfails, proceed, Stmt.exec, huuid, tasksOnly, Engine.applyAll]

theorem exec_selectTask {id clientId : String} {reply : Option (Option A2aTask)}
    (h : (taskStore pg ρ).exec env tasks r (.query (.selectTask id clientId)) =
      some (reply, tasks')) :
    tasks' = tasks ∧ (reply = none ∨ ∃ uuid, pg.uuid id = some uuid ∧
      reply = some (tasks.find? fun task => task.id = uuid ∧ task.clientId = clientId)) := by
  rcases selectTask_cases env r id clientId with hfails | ⟨uuid, huuid, hexec⟩
  · obtain ⟨rfl, rfl⟩ := Prod.mk.inj (Option.some.inj ((hfails tasks).symm.trans h))
    exact ⟨rfl, .inl rfl⟩
  · obtain ⟨rfl, rfl⟩ := Prod.mk.inj (Option.some.inj ((hexec tasks).symm.trans h))
    exact ⟨rfl, .inr ⟨uuid, huuid, rfl⟩⟩

/-- A command that is no statement on the tasks. -/
def Cmd.asideTasks : Cmd (store pg) → Bool
  | .query s | .tx s => !s.onTasks
  | _ => true

theorem exec_of_aside {k : Cmd (store pg)} (hk : Cmd.asideTasks k = true) :
    (taskStore pg ρ).exec env tasks r k = some (env.answer k, tasks) := by
  cases k with
  | query s =>
    have hs : s.onTasks = false := by simpa [Cmd.asideTasks] using hk
    simp only [hs, Bool.false_eq_true, if_false]
  | _ => rfl

theorem exec_aside {k : Cmd (store pg)} (hk : Cmd.asideTasks k = true)
    {reply : Option k.Reply} (h : (taskStore pg ρ).exec env tasks r k = some (reply, tasks')) :
    reply = env.answer k ∧ tasks' = tasks := by
  obtain ⟨rfl, rfl⟩ := Prod.mk.inj (Option.some.inj ((exec_of_aside hk).symm.trans h))
  exact ⟨rfl, rfl⟩

theorem exec_total (env : TaskChoice pg) (tasks : List A2aTask) (r : ρ) (k : Cmd (store pg)) :
    ∃ reply state, (taskStore pg ρ).exec env tasks r k = some (reply, state) := by
  cases k with
  | query s =>
    simp only
    split
    · split
      · exact ⟨_, _, rfl⟩
      · exact ⟨_, _, rfl⟩
    · exact ⟨_, _, rfl⟩
  | _ => exact ⟨_, _, rfl⟩

theorem answers_of_exec {k : Cmd (store pg)} {reply : k.Reply}
    (h : (taskStore pg ρ).exec env tasks r k = some (some reply, tasks')) : k.Answers reply := by
  cases k with
  | query s =>
    simp only at h
    split at h
    · split at h
      · rename_i eff heff
        obtain rfl := Option.some.inj (Prod.mk.inj (Option.some.inj h)).1
        obtain ⟨⟨_, writes⟩, hexec, rfl⟩ := Option.map_eq_some_iff.mp (proceed_of_perform heff)
        exact ⟨_, _, writes, hexec⟩
      · simp at h
    · exact env.answers (Prod.mk.inj (Option.some.inj h)).1
  | _ => exact env.answers (Prod.mk.inj (Option.some.inj h)).1

theorem prefix_of_exec {k : Cmd (store pg)} {reply : Option k.Reply}
    (h : (taskStore pg ρ).exec env tasks r k = some (reply, tasks')) : tasks <+: tasks' := by
  cases hk : Cmd.asideTasks k with
  | true =>
    rw [(exec_aside hk h).2]
  | false =>
    cases k with
    | query s =>
      cases s with
      | insertTask id clientId skill status result =>
        rcases exec_insertTask h with ⟨-, rfl⟩ | ⟨uuid, stored, -, -, -, -, rfl⟩
        · exact List.prefix_refl _
        · exact List.prefix_append _ _
      | selectTask id clientId => rw [(exec_selectTask h).1]
      | _ => exact absurd hk (by simp [Cmd.asideTasks, Stmt.onTasks])
    | tx s =>
      rw [← (Prod.mk.inj (Option.some.inj h)).2]
    | _ => exact absurd hk (by simp [Cmd.asideTasks])

end Statements

/-- How far a `SendMessage` request has come. -/
inductive TaskStage where
  | sending
  | drawn (id : Uuid)
  | stored (id : Uuid) (status : TaskStatus) (result : Value)

def IsObject (v : Json) : Prop := ∃ members, v = .obj members

section Sending

variable {pg : Postgres} {client : A2aClientEntry} {α β : Type}

inductive TaskStage.Moves (client : A2aClientEntry) :
    TaskStage → (k : Cmd (store pg)) → Option k.Reply → TaskStage → Prop where
  | failed {σ k} : Moves client σ k none σ
  | aside {σ k} (r : k.Reply) : Cmd.asideTasks k = true → Moves client σ k (some r) σ
  | draw (id : Uuid) : Moves client .sending (.ext .random) (some id) (.drawn id)
  | store {id skill status result} : IsObject result.json →
      Moves client (.drawn id) (.query (.insertTask id client.clientId skill status result))
        (some ()) (.stored id status result)

/-- What may be answered at the end of a stage. -/
def TaskStage.Ends : TaskStage → SendMessageReply → Prop
  | .sending, reply => ∃ code message, reply = .error code message
  | .drawn _, _ => False
  | .stored id status result, reply => reply = .result id status result.json

/-- The program goes through the stages. -/
def Sends (client : A2aClientEntry) : Async pg Thrown SendMessageReply → TaskStage → Prop
  | .ret reply, σ => σ.Ends reply
  | .throw _, _ => True
  | .call k next, σ =>
      (∃ σ', TaskStage.Moves client σ k none σ' ∧ Sends client (next none) σ') ∧
      ∀ r, k.Answers r → ∃ σ', TaskStage.Moves client σ k (some r) σ' ∧ Sends client (next (some r)) σ'

/-- The program issues no statement on the tasks, and what it returns satisfies `post`. -/
def Aside (post : α → Prop) : Async pg Thrown α → Prop
  | .ret a => post a
  | .throw _ => True
  | .call k next => Cmd.asideTasks k = true ∧ Aside post (next none) ∧
      ∀ r, k.Answers r → Aside post (next (some r))

theorem aside_of_confined {p : Async pg Thrown α}
    (h : Confined (fun k => Cmd.asideTasks k = true) p) : Aside (fun _ => True) p := by
  induction p with
  | ret a => trivial
  | throw e => trivial
  | call k next ih =>
    obtain ⟨hk, hnone, hsome⟩ := h
    exact ⟨hk, ih none hnone, fun r hr => ih (some r) (hsome r hr)⟩

theorem Aside.bind {post : α → Prop} {post' : β → Prop} {p : Async pg Thrown α}
    {f : α → Async pg Thrown β} (hp : Aside post p) (hf : ∀ a, post a → Aside post' (f a)) :
    Aside post' (p >>= f) := by
  induction p with
  | ret a => exact hf a hp
  | throw e => trivial
  | call k next ih =>
    obtain ⟨hk, hnone, hsome⟩ := hp
    exact ⟨hk, ih none hnone, fun r hr => ih (some r) (hsome r hr)⟩

theorem aside_ext {x : Ext} : Aside (fun _ => True) (ext x : Async pg Thrown x.Answer) :=
  ⟨rfl, trivial, fun _ _ => trivial⟩

theorem aside_ext_bind {post : α → Prop} {x : Ext} {f : x.Answer → Async pg Thrown α}
    (hf : ∀ r, Aside post (f r)) : Aside post (ext x >>= f) :=
  aside_ext.bind fun r _ => hf r

theorem sends_bind {post : α → Prop} {p : Async pg Thrown α}
    {f : α → Async pg Thrown SendMessageReply} {σ : TaskStage} (hp : Aside post p)
    (hf : ∀ a, post a → Sends client (f a) σ) : Sends client (p >>= f) σ := by
  induction p with
  | ret a => exact hf a hp
  | throw e => trivial
  | call k next ih =>
    obtain ⟨hk, hnone, hsome⟩ := hp
    exact ⟨⟨σ, .failed, ih none hnone⟩, fun r hr => ⟨σ, .aside r hk, ih (some r) (hsome r hr)⟩⟩

theorem sends_draw {f : Uuid → Async pg Thrown SendMessageReply}
    (hf : ∀ id, Sends client (f id) (.drawn id)) : Sends client (ext .random >>= f) .sending :=
  ⟨⟨.sending, .failed, trivial⟩, fun id _ => ⟨.drawn id, .draw id, hf id⟩⟩

theorem sends_store {id : Uuid} {skill : String} {status : TaskStatus} {result : Value}
    {f : Unit → Async pg Thrown SendMessageReply} (hresult : IsObject result.json)
    (hf : Sends client (f ()) (.stored id status result)) :
    Sends client (query (.insertTask id client.clientId skill status result) >>= f) (.drawn id) :=
  ⟨⟨_, .failed, trivial⟩, fun _ _ => ⟨_, .store hresult, hf⟩⟩

variable {sha256 : String → String} {deps : A2aDeps}

theorem aside_of_service {k : Cmd (store pg)} (h : Agents.isService k = true) :
    Cmd.asideTasks k = true := by
  cases k <;> first | rfl | exact absurd h (by simp [Agents.isService])

theorem aside_append {input : AuditRecordInput} :
    Aside (fun _ => True) (append sha256 input : Async pg Thrown AuditRecord) := by
  apply aside_of_confined
  apply Agents.confined_transaction fun _ => aside_of_service
  exact Agents.confined_appendInTransaction (fun _ => aside_of_service) rfl rfl fun _ _ => rfl

theorem Aside.result {p : Async pg Thrown α} (h : Aside (fun _ => True) p) :
    Aside (fun _ => True) (p.result : Async pg Thrown (Except Thrown α)) := by
  induction p with
  | ret a => trivial
  | throw e => trivial
  | call k next ih =>
    obtain ⟨hk, hnone, hsome⟩ := h
    exact ⟨hk, ih none hnone, fun r hr => ih (some r) (hsome r hr)⟩

theorem aside_auditBestEffort {input : AuditRecordInput} :
    Aside (fun _ => True) (auditBestEffort sha256 input : Async pg Thrown Bool) := by
  apply aside_append.result.bind
  intro outcome _
  cases outcome with
  | ok record => trivial
  | error err => exact aside_ext_bind fun _ => trivial

theorem aside_finish {identity : Agents.AgentIdentity} {task : AgentTaskDef} {outcome : AgentTaskOutcome} :
    Aside (fun _ => True) (Agents.finish sha256 identity task outcome : Async pg Thrown Unit) :=
  aside_append.bind fun _ _ => trivial

theorem aside_runSkill (skill : String) (input : Json) :
    Aside (fun r => IsObject r.2.json)
      (runSkill sha256 deps client skill input : Async pg Thrown (TaskStatus × Value)) := by
  unfold runSkill
  split
  · exact ⟨_, rfl⟩
  split
  · exact ⟨_, rfl⟩
  · unfold runProcedure
    apply aside_ext_bind
    intro answer
    cases answer with
    | error message =>
      apply aside_ext_bind
      intro _
      exact aside_finish.bind fun _ _ => ⟨_, rfl⟩
    | ok outcome => exact aside_finish.bind fun _ _ => ⟨_, rfl⟩

theorem sends_runTask (skill : String) (input : Json) :
    Sends client (runTask sha256 deps client skill input : Async pg Thrown SendMessageReply)
      .sending := by
  apply sends_draw
  intro id
  apply sends_bind (aside_runSkill skill input)
  rintro ⟨status, result⟩ hresult
  apply sends_store hresult
  apply sends_bind aside_auditBestEffort
  intro _ _
  rfl

theorem sends_callSkill (skill : String) (input : Json) :
    Sends client (callSkill sha256 deps client skill input : Async pg Thrown SendMessageReply)
      .sending := by
  apply sends_bind aside_ext
  intro decision _
  apply sends_bind aside_auditBestEffort
  intro audited _
  split
  · exact ⟨_, _, rfl⟩
  split
  · exact ⟨_, _, rfl⟩
  · exact sends_runTask skill input

/-- `handleSendMessage` draws an id, stores the task under it and answers with what it stored. -/
theorem sends_handleSendMessage (params : Json) :
    Sends client (handleSendMessage sha256 deps client params : Async pg Thrown SendMessageReply)
      .sending := by
  unfold handleSendMessage
  dsimp only
  split
  · trivial
  split
  · exact sends_callSkill _ _
  · apply sends_bind aside_auditBestEffort
    intro audited _
    split
    · exact ⟨_, _, rfl⟩
    · exact ⟨_, _, rfl⟩

end Sending

/-- The request asks for the task with this id. -/
def Names (pg : Postgres) (params : Json) (uuid : Uuid) : Prop :=
  ∃ taskId, Mcp.textOf (Mcp.property params "id") = some taskId ∧ isUuid taskId = true ∧
    pg.uuid (asciiString taskId) = some uuid

/-- The answer about an id under which there is nothing. -/
def unknownReply (params : Json) : SendMessageReply :=
  match Mcp.textOf (Mcp.property params "id") with
  | none => idRequired
  | some taskId =>
      if taskId = [] then idRequired else if isUuid taskId = false then idMalformed
      else taskNotFound

section Retrieving

variable {pg : Postgres} {ρ : Type} [DecidableEq ρ] {toNumber : Text → Num}
  {client : A2aClientEntry} {params : Json}

/-- The reply is the one that these rows give. -/
inductive Answered (pg : Postgres) (toNumber : Text → Num) (client : A2aClientEntry)
    (params : Json) (tasks : List A2aTask) : SendMessageReply → Prop where
  | unknown : (∀ uuid, Names pg params uuid → ∀ task ∈ tasks,
      ¬(task.id = uuid ∧ task.clientId = client.clientId)) →
      Answered pg toNumber client params tasks (unknownReply params)
  | found {uuid task reply} : Names pg params uuid → task ∈ tasks → task.id = uuid →
      task.clientId = client.clientId → taskReply toNumber task = .ok reply →
      Answered pg toNumber client params tasks reply

def rowReply (toNumber : Text → Num) : Option A2aTask → Except Thrown SendMessageReply
  | none => .ok taskNotFound
  | some row => taskReply toNumber row

private theorem ofExcept_eq_ret {r : Except Thrown SendMessageReply} {reply : SendMessageReply}
    (h : (Prog.ofExcept r : Async pg Thrown SendMessageReply) = .ret reply) : r = .ok reply := by
  cases r with
  | error err => cases h
  | ok reply' => rw [Prog.ret.inj h]

theorem handleGetTask_cases (pg : Postgres) (toNumber : Text → Num)
    (client : A2aClientEntry) (params : Json) :
    ((handleGetTask toNumber client params : Async pg Thrown SendMessageReply) =
        .ret (unknownReply params) ∧ ∀ uuid, ¬Names pg params uuid) ∨
    ∃ taskId, Mcp.textOf (Mcp.property params "id") = some taskId ∧ isUuid taskId = true ∧
      unknownReply params = taskNotFound ∧
      (handleGetTask toNumber client params : Async pg Thrown SendMessageReply) =
        query (.selectTask (asciiString taskId) client.clientId) >>= fun row =>
          Prog.ofExcept (rowReply toNumber row) := by
  unfold handleGetTask unknownReply Names
  cases Mcp.textOf (Mcp.property params "id") with
  | none => exact .inl ⟨rfl, by simp⟩
  | some taskId =>
    dsimp only
    by_cases hnil : taskId = []
    · rw [if_pos hnil, if_pos hnil, hnil]
      refine .inl ⟨rfl, ?_⟩
      rintro uuid ⟨taskId', heq, huuid, -⟩
      rw [← Option.some.inj heq] at huuid
      exact absurd huuid (by decide)
    · rw [if_neg hnil, if_neg hnil]
      cases huuid : isUuid taskId with
      | false =>
        refine .inl ⟨by simp; rfl, ?_⟩
        rintro uuid ⟨taskId', heq, huuid', -⟩
        rw [← Option.some.inj heq, huuid] at huuid'
        cases huuid'
      | true =>
        refine .inr ⟨taskId, rfl, huuid, by simp, ?_⟩
        rw [if_neg (by simp)]
        congr 1
        funext row
        cases row <;> rfl

theorem state_prefix_of_run (w : (taskStore pg ρ).World Thrown SendMessageReply)
    (schedule : List (ρ × TaskChoice pg)) : w.state <+: (Machine.run w schedule).state := by
  induction schedule generalizing w with
  | nil => exact List.prefix_refl _
  | cons s schedule ih =>
    have hstep : w.state <+: (Machine.step w s.1 s.2).state := by
      rcases Machine.step_cases w s.1 s.2 with heq | ⟨k, next, reply, state, -, hexec, heq⟩
      · rw [heq]
      · rw [heq]
        exact prefix_of_exec hexec
    exact hstep.trans (ih _)

private theorem answered_of_select {taskId : Text} {uuid : Uuid} {tasks : List A2aTask}
    {reply : SendMessageReply}
    (hid : Mcp.textOf (Mcp.property params "id") = some taskId) (hform : isUuid taskId = true)
    (hunknown : unknownReply params = taskNotFound)
    (huuid : pg.uuid (asciiString taskId) = some uuid)
    (hreply : rowReply toNumber
      (tasks.find? fun task => task.id = uuid ∧ task.clientId = client.clientId) = .ok reply) :
    Answered pg toNumber client params tasks reply := by
  have hnames : Names pg params uuid := ⟨taskId, hid, hform, huuid⟩
  cases hfind : tasks.find? fun task => task.id = uuid ∧ task.clientId = client.clientId with
  | none =>
    rw [hfind] at hreply
    obtain rfl : taskNotFound = reply := Except.ok.inj hreply
    rw [← hunknown]
    refine .unknown ?_
    rintro uuid' ⟨taskId', hid', -, huuid'⟩ task htask
    obtain rfl := Option.some.inj (hid.symm.trans hid')
    obtain rfl := Option.some.inj (huuid.symm.trans huuid')
    simpa using List.find?_eq_none.mp hfind task htask
  | some row =>
    rw [hfind] at hreply
    have hrow := List.find?_some hfind
    simp only [decide_eq_true_eq] at hrow
    exact .found hnames (List.mem_of_find?_eq_some hfind) hrow.1 hrow.2 hreply

/-- A `GetTask` request answers what the table held at some moment since it arrived. -/
theorem answered_of_run {w : (taskStore pg ρ).World Thrown SendMessageReply} {r : ρ}
    (hproc : w.procs r = handleGetTask toNumber client params)
    {schedule : List (ρ × TaskChoice pg)} {reply : SendMessageReply}
    (hret : (Machine.run w schedule).procs r = .ret reply) :
    ∃ tasks, w.state <+: tasks ∧ tasks <+: (Machine.run w schedule).state ∧
      Answered pg toNumber client params tasks reply := by
  rcases handleGetTask_cases pg toNumber client params with
    ⟨hget, hunnamed⟩ | ⟨taskId, hid, hform, hunknown, hget⟩
  · have hended : (Machine.run w schedule).procs r = w.procs r := by
      apply Machine.run_of_ended
      intro k next hcall
      rw [hproc, hget] at hcall
      cases hcall
    rw [hended, hproc, hget] at hret
    obtain rfl := Prog.ret.inj hret
    exact ⟨w.state, List.prefix_refl _, state_prefix_of_run w schedule,
      .unknown fun uuid h => absurd h (hunnamed uuid)⟩
  induction schedule generalizing w with
  | nil =>
    rw [Machine.run, List.foldl_nil, hproc, hget] at hret
    cases hret
  | cons s schedule ih =>
    rcases Machine.step_cases w s.1 s.2 with heq | ⟨k, next, answer, state, hcall, hexec, heq⟩
    · have hrun : Machine.run w (s :: schedule) = Machine.run w schedule := by
        rw [Machine.run, List.foldl_cons, heq]
        rfl
      rw [hrun] at hret ⊢
      exact ih hproc hret
    · have hrun : Machine.run w (s :: schedule) =
          Machine.run (Machine.step w s.1 s.2) schedule := rfl
      have hgrown : w.state <+: (Machine.step w s.1 s.2).state := by
        rw [heq]
        exact prefix_of_exec hexec
      rw [hrun] at hret ⊢
      by_cases hs : s.1 = r
      · -- the statement of this request
        rw [hs, hproc, hget] at hcall
        cases hcall
        obtain ⟨hstate, hanswer⟩ := exec_selectTask hexec
        have hnow : (Machine.step w s.1 s.2).procs r =
            answer.elim (.throw .fault) fun row => Prog.ofExcept (rowReply toNumber row) := by
          have hprocs := congrArg (fun w => Machine.World.procs w r) heq
          rw [hs] at hprocs
          rw [hs]
          refine hprocs.trans ((Function.update_self _ _ _).trans ?_)
          cases answer <;> rfl
        have hended : (Machine.run (Machine.step w s.1 s.2) schedule).procs r =
            (Machine.step w s.1 s.2).procs r := by
          apply Machine.run_of_ended
          intro k next hcall
          rw [hnow] at hcall
          cases answer with
          | none => cases hcall
          | some row =>
            rw [Option.elim] at hcall
            generalize rowReply toNumber row = outcome at hcall
            cases outcome <;> cases hcall
        rw [hended, hnow] at hret
        rcases hanswer with rfl | ⟨uuid, huuid, rfl⟩
        · cases hret
        · exact ⟨w.state, List.prefix_refl _, hgrown.trans (state_prefix_of_run _ _),
            answered_of_select hid hform hunknown huuid (ofExcept_eq_ret hret)⟩
      · have hproc' : (Machine.step w s.1 s.2).procs r = handleGetTask toNumber client params := by
          rw [heq]
          exact (Function.update_of_ne (Ne.symm hs) _ _).trans hproc
        obtain ⟨tasks, hsince, hnow, hanswered⟩ := ih hproc' hret
        exact ⟨tasks, hgrown.trans hsince, hnow, hanswered⟩

end Retrieving

/-- The id that a request has drawn. -/
def TaskStage.id : TaskStage → Option Uuid
  | .sending => none
  | .drawn id | .stored id _ _ => some id

/-- The same JSON value, its members in another order. -/
def SameJson (v w : Json) : Prop := w.rebuild id .sorted = v.rebuild Scalar.printed .sorted

/-- The row of a task that was answered so. -/
structure RowOf (pg : Postgres) (clientId : String) (id : Uuid) (status : TaskStatus)
    (result : Value) (task : A2aTask) : Prop where
  id : pg.uuid id = some task.id
  client : task.clientId = clientId
  status : task.status = status
  object : IsObject result.json
  result : ∃ stored, pg.columns.jsonb result = some stored ∧ task.result = stored.json

section Invariant

variable {pg : Postgres} {ρ : Type}

/-- `randomUUID` gave this id. -/
def drawEvent (r : ρ) (id : Uuid) : (taskStore pg ρ).Event := ⟨r, .ext .random, some id⟩

/-- The row of the task was inserted. -/
def storeEvent (r : ρ) (id clientId skill : String) (status : TaskStatus) (result : Value) :
    (taskStore pg ρ).Event :=
  ⟨r, .query (.insertTask id clientId skill status result), some ()⟩

structure Tasked (toNumber : Text → Num) (requests : ρ → TaskRequest)
    (phases : ρ → TaskStage × Async pg Thrown SendMessageReply) (tasks : List A2aTask)
    (history : List (taskStore pg ρ).Event) : Prop where
  sends : ∀ r params, (requests r).method = .sendMessage params →
    Sends (requests r).client (phases r).2 (phases r).1
  gets : ∀ r params, (requests r).method = .getTask params → (phases r).1 = .sending ∧
    ((phases r).2 = handleGetTask toNumber (requests r).client params ∨
      ∀ k next, (phases r).2 ≠ .call k next)
  drawn : ∀ r id, (phases r).1.id = some id → drawEvent r id ∈ history
  stored : ∀ r id status result, (phases r).1 = .stored id status result →
    ∃ task ∈ tasks, RowOf pg (requests r).clientId id status result task
  owned : ∀ task ∈ tasks, ∃ r id skill status result, (phases r).1 = .stored id status result ∧
    storeEvent r id (requests r).clientId skill status result ∈ history ∧
    pg.uuid id = some task.id ∧ task.clientId = (requests r).clientId
  distinct : (tasks.map (·.id)).Nodup

variable [DecidableEq ρ] {toNumber : Text → Num} {requests : ρ → TaskRequest}
  {phases : ρ → TaskStage × Async pg Thrown SendMessageReply} {tasks tasks' : List A2aTask}
  {history : List (taskStore pg ρ).Event} {c : ρ} {σ : TaskStage}
  {p : Async pg Thrown SendMessageReply} {e : (taskStore pg ρ).Event}

private theorem Tasked.concat (h : Tasked toNumber requests phases tasks history)
    (hsends : ∀ params, (requests c).method = .sendMessage params →
      Sends (requests c).client p σ)
    (hgets : ∀ params, (requests c).method = .getTask params → σ = .sending ∧
      (p = handleGetTask toNumber (requests c).client params ∨ ∀ k next, p ≠ .call k next))
    (hgrown : tasks <+: tasks') (hdistinct : (tasks'.map (·.id)).Nodup)
    (hdrawn : ∀ id, σ.id = some id → (phases c).1.id = some id ∨ e = drawEvent c id)
    (hkeep : ∀ id status result, (phases c).1 = .stored id status result →
      σ = .stored id status result)
    (hstored : ∀ id status result, σ = .stored id status result → (phases c).1 = σ ∨
      ∃ task ∈ tasks', RowOf pg (requests c).clientId id status result task)
    (howned : ∀ task ∈ tasks', task ∈ tasks ∨ ∃ id skill status result,
      σ = .stored id status result ∧
      e = storeEvent c id (requests c).clientId skill status result ∧
      pg.uuid id = some task.id ∧ task.clientId = (requests c).clientId) :
    Tasked toNumber requests (Function.update phases c (σ, p)) tasks' (history ++ [e]) where
  sends r params hr := by
    by_cases hc : r = c
    · subst hc
      simpa using hsends params hr
    · simpa [hc] using h.sends r params hr
  gets r params hr := by
    by_cases hc : r = c
    · subst hc
      simpa using hgets params hr
    · simpa [hc] using h.gets r params hr
  drawn r id hid := by
    by_cases hc : r = c
    · subst hc
      rw [Function.update_self] at hid
      rcases hdrawn id hid with hold | rfl
      · exact List.mem_append_left _ (h.drawn r id hold)
      · exact List.mem_append_right _ (List.mem_singleton_self _)
    · rw [Function.update_of_ne hc] at hid
      exact List.mem_append_left _ (h.drawn r id hid)
  stored r id status result hr := by
    by_cases hc : r = c
    · subst hc
      rw [Function.update_self] at hr
      rcases hstored id status result hr with hold | hnew
      · obtain ⟨task, htask, hrow⟩ := h.stored r id status result (hold.trans hr)
        exact ⟨task, hgrown.subset htask, hrow⟩
      · exact hnew
    · rw [Function.update_of_ne hc] at hr
      obtain ⟨task, htask, hrow⟩ := h.stored r id status result hr
      exact ⟨task, hgrown.subset htask, hrow⟩
  owned task htask := by
    rcases howned task htask with hold | ⟨id, skill, status, result, hσ, rfl, hid, hclient⟩
    · obtain ⟨r, id, skill, status, result, hr, hevent, hid, hclient⟩ := h.owned task hold
      refine ⟨r, id, skill, status, result, ?_, List.mem_append_left _ hevent, hid, hclient⟩
      by_cases hc : r = c
      · subst hc
        rw [Function.update_self]
        exact hkeep id status result hr
      · rw [Function.update_of_ne hc]
        exact hr
    · refine ⟨c, id, skill, status, result, ?_,
        List.mem_append_right _ (List.mem_singleton_self _), hid, hclient⟩
      rw [Function.update_self]
      exact hσ
  distinct := hdistinct

/-- A command of a `SendMessage` request. -/
private theorem Tasked.send (h : Tasked toNumber requests phases tasks history) {params : Json}
    (hc : (requests c).method = .sendMessage params) {k : Cmd (store pg)} {reply : Option k.Reply}
    {env : TaskChoice pg}
    (hexec : (taskStore pg ρ).exec env tasks c k = some (reply, tasks'))
    (hmoves : TaskStage.Moves (requests c).client (phases c).1 k reply σ)
    (hsends : Sends (requests c).client p σ) :
    Tasked toNumber requests (Function.update phases c (σ, p)) tasks' (history ++ [⟨c, k, reply⟩]) := by
  have hgets : ∀ params, (requests c).method = .getTask params → σ = .sending ∧
      (p = handleGetTask toNumber (requests c).client params ∨ ∀ k next, p ≠ .call k next) := by
    intro params' hc'
    rw [hc] at hc'
    cases hc'
  have hsame : tasks' = tasks → ∀ task ∈ tasks', task ∈ tasks ∨ ∃ id skill status result,
      σ = .stored id status result ∧ (⟨c, k, reply⟩ : (taskStore pg ρ).Event) =
        storeEvent c id (requests c).clientId skill status result ∧
      pg.uuid id = some task.id ∧ task.clientId = (requests c).clientId := by
    rintro rfl task htask
    exact .inl htask
  generalize hφ : (phases c).1 = φ at hmoves
  cases hmoves with
  | failed =>
    have heq : tasks' = tasks := by
      cases hk : Cmd.asideTasks k with
      | true => exact (exec_aside hk hexec).2
      | false =>
        cases k with
        | query s =>
          cases s with
          | insertTask id clientId skill status result =>
            rcases exec_insertTask hexec with ⟨-, heq⟩ | ⟨uuid, stored, hreply, -⟩
            · exact heq
            · cases hreply
          | selectTask id clientId => exact (exec_selectTask hexec).1
          | _ => exact absurd hk (by simp [Cmd.asideTasks, Stmt.onTasks])
        | tx s => exact (Prod.mk.inj (Option.some.inj hexec)).2.symm
        | _ => exact absurd hk (by simp [Cmd.asideTasks])
    refine h.concat (fun _ _ => hsends) hgets (heq ▸ List.prefix_refl _) (heq ▸ h.distinct) ?_ ?_
      ?_ (hsame heq)
    · exact fun id hid => .inl (hφ ▸ hid)
    · exact fun id status result hr => hφ ▸ hr
    · exact fun id status result _ => .inl hφ
  | aside r hk =>
    have heq := (exec_aside hk hexec).2
    refine h.concat (fun _ _ => hsends) hgets (heq ▸ List.prefix_refl _) (heq ▸ h.distinct) ?_ ?_
      ?_ (hsame heq)
    · exact fun id hid => .inl (hφ ▸ hid)
    · exact fun id status result hr => hφ ▸ hr
    · exact fun id status result _ => .inl hφ
  | draw id =>
    have heq := (exec_aside rfl hexec).2
    refine h.concat (fun _ _ => hsends) hgets (heq ▸ List.prefix_refl _) (heq ▸ h.distinct) ?_ ?_
      ?_ (hsame heq)
    · intro id' hid
      obtain rfl : id = id' := Option.some.inj hid
      exact .inr rfl
    · intro id' status result hr
      rw [hφ] at hr
      cases hr
    · intro id' status result hr
      cases hr
  | @store id skill status result hobject =>
    rcases exec_insertTask hexec with ⟨hnone, -⟩ | ⟨uuid, stored, -, huuid, hjsonb, hnew, heq⟩
    · cases hnone
    subst heq
    refine h.concat (fun _ _ => hsends) hgets (List.prefix_append _ _) ?_ ?_ ?_ ?_ ?_
    · rw [List.map_append, List.nodup_append]
      refine ⟨h.distinct, by simp, ?_⟩
      rintro u hu v hv rfl
      simp only [List.map_cons, List.map_nil, List.mem_singleton] at hv
      exact hnew (hv ▸ hu)
    · intro id' hid
      obtain rfl : id = id' := Option.some.inj hid
      exact .inl (by rw [hφ]; rfl)
    · intro id' status' result' hr
      rw [hφ] at hr
      cases hr
    · intro id' status' result' hr
      cases hr
      exact .inr ⟨_, List.mem_append_right _ (List.mem_singleton_self _),
        huuid, rfl, rfl, hobject, stored, hjsonb, rfl⟩
    · intro task htask
      rcases List.mem_append.mp htask with htask | htask
      · exact .inl htask
      · rw [List.mem_singleton] at htask
        subst htask
        exact .inr ⟨id, skill, status, result, rfl, rfl, huuid, rfl⟩

/-- A command of a `GetTask` request is its only one. -/
private theorem Tasked.get (h : Tasked toNumber requests phases tasks history) {params : Json}
    (hc : (requests c).method = .getTask params) {k : Cmd (store pg)}
    {next : Option k.Reply → Async pg Thrown SendMessageReply} {reply : Option k.Reply}
    {env : TaskChoice pg} (hcall : (phases c).2 = .call k next)
    (hexec : (taskStore pg ρ).exec env tasks c k = some (reply, tasks')) :
    Tasked toNumber requests (Function.update phases c (.sending, next reply)) tasks'
      (history ++ [⟨c, k, reply⟩]) := by
  obtain ⟨hstage, hproc⟩ := h.gets c params hc
  have hget := hproc.resolve_right fun hended => hended k next hcall
  rw [hget] at hcall
  rcases handleGetTask_cases pg toNumber (requests c).client params with
    ⟨heq, -⟩ | ⟨taskId, -, -, -, heq⟩
  · rw [heq] at hcall
    cases hcall
  · rw [heq] at hcall
    cases hcall
    obtain ⟨hsame, -⟩ := exec_selectTask hexec
    subst hsame
    refine h.concat ?_ ?_ (List.prefix_refl _) h.distinct ?_ ?_ ?_ fun task htask => .inl htask
    · intro params' hc'
      rw [hc] at hc'
      cases hc'
    · intro params' _
      refine ⟨rfl, .inr ?_⟩
      intro k next hcall
      cases reply with
      | none => cases hcall
      | some row =>
        change Prog.ofExcept (rowReply toNumber row) = _ at hcall
        generalize rowReply toNumber row = outcome at hcall
        cases outcome <;> cases hcall
    · intro id hid
      cases hid
    · intro id status result hr
      rw [hstage] at hr
      cases hr
    · intro id status result hr
      cases hr

theorem preserves_tasked :
    Machine.Preserves (M := taskStore pg ρ)
      (fun _ (φ : TaskStage × Async pg Thrown SendMessageReply) => φ.2)
      (Tasked toNumber requests) := by
  intro phases tasks history c k next env reply tasks' h hcall hexec
  cases hc : (requests c).method with
  | getTask params => exact ⟨_, rfl, h.get hc hcall hexec⟩
  | sendMessage params =>
    have hsends := h.sends c params hc
    rw [show (phases c).2 = .call k next from hcall] at hsends
    obtain ⟨σ, hmoves, hnext⟩ : ∃ σ, TaskStage.Moves (requests c).client (phases c).1 k reply σ ∧
        Sends (requests c).client (next reply) σ := by
      cases reply with
      | none => exact hsends.1
      | some r => exact hsends.2 r (answers_of_exec hexec)
    exact ⟨(σ, next reply), rfl, h.send hc hexec hmoves hnext⟩

omit [DecidableEq ρ] in
theorem describes_begin (sha256 : String → String) (deps : A2aDeps) :
    Machine.Describes (M := taskStore pg ρ)
      (fun _ (φ : TaskStage × Async pg Thrown SendMessageReply) => φ.2) (Tasked toNumber requests)
      (a2a sha256 deps toNumber pg requests) := by
  refine ⟨fun r => (.sending, (requests r).serve sha256 deps toNumber), rfl, ?_, ?_, ?_, ?_, ?_, ?_⟩
  · intro r params hr
    simp only [TaskRequest.serve, hr]
    exact sends_handleSendMessage params
  · intro r params hr
    refine ⟨rfl, .inl ?_⟩
    simp only [TaskRequest.serve, hr]
  · intro r id hid
    cases hid
  · intro r id status result hr
    cases hr
  · intro task htask
    exact absurd htask List.not_mem_nil
  · exact List.nodup_nil

variable (toNumber) in
theorem RowOf.reply {clientId : String} {id : Uuid} {status : TaskStatus} {result : Value}
    {task : A2aTask} (h : RowOf pg clientId id status result task) :
    taskReply toNumber task = .ok (.result task.id status task.result) ∧
      SameJson result.json task.result := by
  obtain ⟨stored, hstored, hresult⟩ := h.result
  obtain ⟨members, hobject⟩ := h.object
  have hsame : SameJson result.json task.result := by
    rw [hresult]
    exact pg.columns.jsonb_same hstored
  refine ⟨?_, hsame⟩
  unfold taskReply
  rw [h.status]
  cases hjson : task.result with
  | scalar s =>
    rw [SameJson, hobject, hjson, Json.rebuild_scalar, Json.rebuild_obj] at hsame
    cases hsame
  | arr items => rfl
  | obj members' => rfl

end Invariant

section Answers

variable (sha256 : String → String) (deps : A2aDeps) (toNumber : Text → Num) {pg : Postgres}
  {ρ : Type} [DecidableEq ρ] (requests : ρ → TaskRequest)

/-- The requests after a schedule of their commands. -/
def afterRequests (schedule : List (ρ × TaskChoice pg)) :
    (taskStore pg ρ).World Thrown SendMessageReply :=
  Machine.run (a2a sha256 deps toNumber pg requests) schedule

/-- The reply is the task that this client stored under this id. -/
def RepliesStored (history : List (taskStore pg ρ).Event) (clientId : String) (uuid : Uuid)
    (reply : SendMessageReply) : Prop :=
  ∃ r id skill status result stored, (requests r).clientId = clientId ∧ pg.uuid id = some uuid ∧
    storeEvent r id clientId skill status result ∈ history ∧
    reply = .result uuid status stored ∧ SameJson result.json stored

theorem describes_afterRequests (schedule : List (ρ × TaskChoice pg)) :
    Machine.Describes (fun _ (φ : TaskStage × Async pg Thrown SendMessageReply) => φ.2)
      (Tasked toNumber requests) (afterRequests sha256 deps toNumber requests schedule) :=
  Machine.run_phases preserves_tasked (describes_begin sha256 deps) schedule

variable {sha256 deps toNumber requests} {schedule : List (ρ × TaskChoice pg)}

private theorem eq_of_id_eq {tasks : List A2aTask} (h : (tasks.map (·.id)).Nodup)
    {task task' : A2aTask} (htask : task ∈ tasks) (htask' : task' ∈ tasks)
    (hid : task.id = task'.id) : task = task' :=
  List.inj_on_of_nodup_map h htask htask' hid

theorem rowOf_of_reported {r : ρ} {params : Json} {id : Uuid} {status : TaskStatus} {result : Json}
    (hr : (requests r).method = .sendMessage params)
    (hret : (afterRequests sha256 deps toNumber requests schedule).procs r =
      .ret (.result id status result)) :
    ∃ task ∈ (afterRequests sha256 deps toNumber requests schedule).state, ∃ v,
      v.json = result ∧ RowOf pg (requests r).clientId id status v task := by
  obtain ⟨phases, hprocs, hinv⟩ := describes_afterRequests sha256 deps toNumber requests
    schedule
  have hsends := hinv.sends r params hr
  have hcode : (phases r).2 = .ret (.result id status result) := by
    rw [← hret, hprocs]
  rw [hcode] at hsends
  cases hstage : (phases r).1 with
  | sending =>
    rw [hstage] at hsends
    obtain ⟨code, message, heq⟩ := hsends
    cases heq
  | drawn id' =>
    rw [hstage] at hsends
    exact hsends.elim
  | stored id' status' v =>
    rw [hstage] at hsends
    cases hsends
    obtain ⟨task, htask, hrow⟩ := hinv.stored r id status v hstage
    exact ⟨task, htask, v, rfl, hrow⟩

theorem procs_run_of_unnamed {w : (taskStore pg ρ).World Thrown SendMessageReply} {r : ρ}
    (h : ∀ s ∈ schedule, s.1 ≠ r) : (Machine.run w schedule).procs r = w.procs r := by
  induction schedule generalizing w with
  | nil => rfl
  | cons s schedule ih =>
    have hstep : (Machine.step w s.1 s.2).procs r = w.procs r := by
      rcases Machine.step_cases w s.1 s.2 with heq | ⟨k, next, reply, state, -, -, heq⟩
      · rw [heq]
      · rw [heq]
        exact Function.update_of_ne (Ne.symm (h s List.mem_cons_self)) _ _
    exact (ih fun s' hs' => h s' (List.mem_cons_of_mem _ hs')).trans hstep

/-- What was reported is what a later `GetTask` returns. -/
theorem retrieved_of_reported {before after : List (ρ × TaskChoice pg)} {r r' : ρ}
    {params params' : Json} {id : Uuid} {status : TaskStatus} {result : Json} {uuid : Uuid}
    {reply : SendMessageReply} (hr : (requests r).method = .sendMessage params)
    (hret : (afterRequests sha256 deps toNumber requests before).procs r =
      .ret (.result id status result))
    (hr' : (requests r').method = .getTask params')
    (hclient : (requests r').clientId = (requests r).clientId) (hid : pg.uuid id = some uuid)
    (hnames : Names pg params' uuid) (hlater : ∀ s ∈ before, s.1 ≠ r')
    (hreply : (afterRequests sha256 deps toNumber requests (before ++ after)).procs r' =
      .ret reply) :
    ∃ result', reply = .result uuid status result' ∧ SameJson result result' := by
  obtain ⟨task, htask, v, rfl, hrow⟩ := rowOf_of_reported hr hret
  have hproc : (afterRequests sha256 deps toNumber requests before).procs r' =
      handleGetTask toNumber (requests r').client params' := by
    rw [afterRequests, procs_run_of_unnamed hlater]
    simp only [a2a, Machine.begin, TaskRequest.serve, hr']
  have hsplit : afterRequests sha256 deps toNumber requests (before ++ after) =
      Machine.run (afterRequests sha256 deps toNumber requests before) after := by
    rw [afterRequests, Machine.run, List.foldl_append]
    rfl
  obtain ⟨phases, -, hinv⟩ := describes_afterRequests sha256 deps toNumber requests
    (before ++ after)
  rw [hsplit] at hreply hinv
  obtain ⟨tasks, hsince, hnow, hanswered⟩ := answered_of_run hproc hreply
  have hold : task ∈ tasks := hsince.subset htask
  have huuid : uuid = task.id := Option.some.inj (hid.symm.trans hrow.id)
  cases hanswered with
  | unknown hnone =>
    exact absurd ⟨huuid.symm, hrow.client.trans hclient.symm⟩ (hnone uuid hnames task hold)
  | @found uuid' task' _ hnames' htask' hid' hclient' hreply' =>
    have hsame : uuid' = uuid := by
      obtain ⟨taskId, htext, -, hnamed⟩ := hnames
      obtain ⟨taskId', htext', -, hnamed'⟩ := hnames'
      obtain rfl := Option.some.inj (htext.symm.trans htext')
      exact Option.some.inj (hnamed'.symm.trans hnamed)
    obtain rfl : task' = task := eq_of_id_eq hinv.distinct (hnow.subset htask')
      (hnow.subset hold) (hid'.trans (hsame.trans huuid))
    obtain ⟨hstored, hjson⟩ := hrow.reply toNumber
    obtain rfl := Except.ok.inj (hreply'.symm.trans hstored)
    exact ⟨task'.result, by rw [huuid], hjson⟩

/-- A `GetTask` request finds what its own client has stored, or nothing. -/
theorem unknown_or_stored {r : ρ} {params : Json} {reply : SendMessageReply}
    (hr : (requests r).method = .getTask params)
    (hreply : (afterRequests sha256 deps toNumber requests schedule).procs r = .ret reply) :
    reply = unknownReply params ∨ ∃ uuid, Names pg params uuid ∧
      RepliesStored requests (afterRequests sha256 deps toNumber requests schedule).history
        (requests r).clientId uuid reply := by
  have hproc : (a2a sha256 deps toNumber pg requests).procs r =
      handleGetTask toNumber (requests r).client params := by
    simp only [a2a, Machine.begin, TaskRequest.serve, hr]
  obtain ⟨tasks, -, hnow, hanswered⟩ := answered_of_run hproc hreply
  cases hanswered with
  | unknown hnone => exact .inl rfl
  | @found uuid task _ hnames htask hid hclient hfound =>
    obtain ⟨phases, -, hinv⟩ := describes_afterRequests sha256 deps toNumber requests
      schedule
    obtain ⟨r', id, skill, status, result, hstage, hevent, huuid, howner⟩ :=
      hinv.owned task (hnow.subset htask)
    obtain ⟨task', htask', hrow⟩ := hinv.stored r' id status result hstage
    obtain rfl : task' = task := eq_of_id_eq hinv.distinct htask' (hnow.subset htask)
      (Option.some.inj (hrow.id.symm.trans huuid))
    obtain ⟨hstored, hjson⟩ := hrow.reply toNumber
    obtain rfl := Except.ok.inj (hfound.symm.trans hstored)
    have hown : (requests r').clientId = (requests r).clientId := howner.symm.trans hclient
    rw [hown] at hevent
    exact .inr ⟨uuid, hnames, r', id, skill, status, result, task'.result, hown, by rw [huuid, hid],
      hevent, by rw [hid], hjson⟩

end Answers

section Isolation

variable {pg : Postgres} {ρ : Type}

/-- The ids that `randomUUID` gave. -/
def drawnIds (history : List (taskStore pg ρ).Event) : List Uuid :=
  history.filterMap fun e => match e.op, e.reply with
    | .ext .random, some id => pg.uuid id
    | _, _ => none

def tasksOf (clientId : String) (tasks : List A2aTask) : List A2aTask :=
  tasks.filter fun task => task.clientId = clientId

variable {toNumber : Text → Num} {requests : ρ → TaskRequest}
  {phases : ρ → TaskStage × Async pg Thrown SendMessageReply} {tasks tasks' : List A2aTask}
  {history : List (taskStore pg ρ).Event} {r : ρ} {k : Cmd (store pg)} {reply : Option k.Reply}
  {next : Option k.Reply → Async pg Thrown SendMessageReply} {env : TaskChoice pg}
  {clientId : String}

theorem new_of_drawn (h : Tasked toNumber requests phases tasks history)
    (hfresh : (drawnIds history).Nodup) {id : Uuid} (hdrawn : (phases r).1 = .drawn id)
    {uuid : Uuid} (huuid : pg.uuid id = some uuid) : uuid ∉ tasks.map (·.id) := by
  intro hmem
  obtain ⟨task, htask, rfl⟩ := List.mem_map.mp hmem
  obtain ⟨r', id', skill, status, result, hstage, -, huuid', -⟩ := h.owned task htask
  have hdraw : drawEvent r id ∈ history := h.drawn r id (by rw [hdrawn]; rfl)
  have hdraw' : drawEvent r' id' ∈ history := h.drawn r' id' (by rw [hstage]; rfl)
  have hne : r ≠ r' := by
    rintro rfl
    rw [hdrawn] at hstage
    cases hstage
  have hevents : (drawEvent r id : (taskStore pg ρ).Event) ≠ drawEvent r' id' :=
    fun heq => hne (congrArg Machine.Event.client heq)
  have hpairwise := List.pairwise_filterMap.mp hfresh
  exact @List.Pairwise.forall _ _ _ ⟨fun e e' hee u hu u' hu' huu => hee u' hu' u hu huu.symm⟩
    hpairwise _ hdraw _ hdraw' hevents _ huuid _ huuid' rfl

/-- Only a `SendMessage` request inserts, after it has drawn the id, and for its own client. -/
theorem drawn_of_insert (h : Tasked toNumber requests phases tasks history)
    {id clientId' skill : String} {status : TaskStatus} {result : Value}
    {next : Option Unit → Async pg Thrown SendMessageReply}
    (hcall : (phases r).2 = .call (.query (.insertTask id clientId' skill status result)) next)
    (hanswers : (Cmd.query (.insertTask id clientId' skill status result) :
      Cmd (store pg)).Answers ()) :
    (phases r).1 = .drawn id ∧ clientId' = (requests r).clientId := by
  cases hr : (requests r).method with
  | getTask params =>
    obtain ⟨-, hproc⟩ := h.gets r params hr
    have hget := hproc.resolve_right fun hended => hended _ _ hcall
    rw [hget] at hcall
    rcases handleGetTask_cases pg toNumber (requests r).client params with
      ⟨heq, -⟩ | ⟨taskId, -, -, -, heq⟩
    · rw [heq] at hcall
      cases hcall
    · rw [heq] at hcall
      cases hcall
  | sendMessage params =>
    have hsends := h.sends r params hr
    rw [hcall] at hsends
    obtain ⟨σ, hmoves, -⟩ := hsends.2 () hanswers
    generalize (phases r).1 = φ at hmoves
    cases hmoves with
    | aside _ hk => exact absurd hk (by simp [Cmd.asideTasks, Stmt.onTasks])
    | store hobject => exact ⟨rfl, rfl⟩

theorem tasksOf_of_other (h : Tasked toNumber requests phases tasks history)
    (hr : (requests r).clientId ≠ clientId) (hcall : (phases r).2 = .call k next)
    (hexec : (taskStore pg ρ).exec env tasks r k = some (reply, tasks')) :
    tasksOf clientId tasks' = tasksOf clientId tasks := by
  cases hk : Cmd.asideTasks k with
  | true => rw [(exec_aside hk hexec).2]
  | false =>
    cases k with
    | query s =>
      cases s with
      | selectTask id clientId' => rw [(exec_selectTask hexec).1]
      | insertTask id clientId' skill status result =>
        rcases exec_insertTask hexec with ⟨-, rfl⟩ | ⟨uuid, stored, rfl, -, -, -, rfl⟩
        · rfl
        · obtain ⟨-, rfl⟩ := drawn_of_insert h hcall (answers_of_exec hexec)
          simp [tasksOf, hr]
      | _ => exact absurd hk (by simp [Cmd.asideTasks, Stmt.onTasks])
    | tx s => rw [← (Prod.mk.inj (Option.some.inj hexec)).2]
    | _ => exact absurd hk (by simp [Cmd.asideTasks])

theorem client_of_select (h : Tasked toNumber requests phases tasks history)
    {id clientId' : String} {next : Option (Option A2aTask) → Async pg Thrown SendMessageReply}
    (hcall : (phases r).2 = .call (.query (.selectTask id clientId')) next)
    {row : Option A2aTask}
    (hanswers : (Cmd.query (.selectTask id clientId') : Cmd (store pg)).Answers row) :
    clientId' = (requests r).clientId := by
  cases hr : (requests r).method with
  | getTask params =>
    obtain ⟨-, hproc⟩ := h.gets r params hr
    have hget := hproc.resolve_right fun hended => hended _ _ hcall
    rw [hget] at hcall
    rcases handleGetTask_cases pg toNumber (requests r).client params with
      ⟨heq, -⟩ | ⟨taskId, -, -, -, heq⟩
    · rw [heq] at hcall
      cases hcall
    · rw [heq] at hcall
      cases hcall
      rfl
  | sendMessage params =>
    have hsends := h.sends r params hr
    rw [hcall] at hsends
    obtain ⟨σ, hmoves, -⟩ := hsends.2 row hanswers
    generalize (phases r).1 = φ at hmoves
    cases hmoves with
    | aside _ hk => exact absurd hk (by simp [Cmd.asideTasks, Stmt.onTasks])

theorem exec_tasksOf (h : Tasked toNumber requests phases tasks history)
    (hfresh : (drawnIds history).Nodup) (hcall : (phases r).2 = .call k next)
    (hexec : (taskStore pg ρ).exec env tasks r k = some (reply, tasks')) :
    (taskStore pg ρ).exec env (tasksOf (requests r).clientId tasks) r k =
      some (reply, tasksOf (requests r).clientId tasks') := by
  cases hk : Cmd.asideTasks k with
  | true =>
    obtain ⟨rfl, rfl⟩ := exec_aside hk hexec
    exact exec_of_aside hk
  | false =>
    cases k with
    | query s =>
      cases s with
      | selectTask id clientId =>
        rcases selectTask_cases env r id clientId with hfails | ⟨uuid, huuid, hall⟩
        · obtain ⟨rfl, rfl⟩ := Prod.mk.inj (Option.some.inj ((hfails tasks).symm.trans hexec))
          exact hfails _
        · have hclient := client_of_select h hcall
            (answers_of_exec (show (taskStore pg ρ).exec env tasks r _ = _ from hall tasks))
          subst hclient
          obtain ⟨rfl, rfl⟩ := Prod.mk.inj (Option.some.inj ((hall tasks).symm.trans hexec))
          rw [hall, tasksOf, List.find?_filter]
          congr 4
          funext task
          by_cases hclient : task.clientId = (requests r).clientId <;> simp [hclient]
      | insertTask id clientId skill status result =>
        rcases insertTask_cases env r id clientId skill status result with
          hfails | ⟨uuid, stored, huuid, hstored, hall⟩
        · obtain ⟨rfl, rfl⟩ := Prod.mk.inj (Option.some.inj ((hfails tasks).symm.trans hexec))
          exact hfails _
        · obtain ⟨hdrawn, rfl⟩ := drawn_of_insert h hcall
            (answers_of_exec (show (taskStore pg ρ).exec env [] r _ = _ from
              (hall []).trans (if_neg List.not_mem_nil)))
          have hnew := new_of_drawn h hfresh hdrawn huuid
          have hnew' : uuid ∉ (tasksOf (requests r).clientId tasks).map (·.id) := fun hmem =>
            hnew (List.map_subset _ (List.filter_subset_self _) hmem)
          rw [hall, if_neg hnew] at hexec
          obtain ⟨rfl, rfl⟩ := Prod.mk.inj (Option.some.inj hexec)
          rw [hall, if_neg hnew']
          simp [tasksOf, TaskRequest.clientId]
      | _ => exact absurd hk (by simp [Cmd.asideTasks, Stmt.onTasks])
    | tx s =>
      obtain ⟨rfl, rfl⟩ := Prod.mk.inj (Option.some.inj hexec)
      rfl
    | _ => exact absurd hk (by simp [Cmd.asideTasks])

variable [DecidableEq ρ] {requests' : ρ → TaskRequest}

/-- What one client sees of a world: its own requests and its own tasks. -/
structure Sees (requests : ρ → TaskRequest) (clientId : String)
    (w w' : (taskStore pg ρ).World Thrown SendMessageReply) : Prop where
  procs : ∀ r, (requests r).clientId = clientId → w'.procs r = w.procs r
  tasks : w'.state = tasksOf clientId w.state

variable {w w' : (taskStore pg ρ).World Thrown SendMessageReply}

theorem Sees.step_other (h : Sees requests clientId w w')
    (hw : Machine.Describes (fun _ (φ : TaskStage × Async pg Thrown SendMessageReply) => φ.2)
      (Tasked toNumber requests) w) (hr : (requests r).clientId ≠ clientId) :
    Sees requests clientId (Machine.step w r env) w' := by
  obtain ⟨phases, hprocs, hinv⟩ := hw
  rcases Machine.step_cases w r env with heq | ⟨k, next, reply, state, hcall, hexec, heq⟩
  · rw [heq]
    exact h
  · have hsame : tasksOf clientId state = tasksOf clientId w.state :=
      tasksOf_of_other hinv hr (by rw [← hcall, hprocs]) hexec
    rw [heq]
    refine ⟨?_, h.tasks.trans hsame.symm⟩
    intro r' hr'
    have hne : r' ≠ r := by
      rintro rfl
      exact hr hr'
    exact (h.procs r' hr').trans (Function.update_of_ne hne _ _).symm

theorem Sees.step_own (h : Sees requests clientId w w')
    (hw : Machine.Describes (fun _ (φ : TaskStage × Async pg Thrown SendMessageReply) => φ.2)
      (Tasked toNumber requests) w) (hfresh : (drawnIds w.history).Nodup)
    (hr : (requests r).clientId = clientId) :
    Sees requests clientId (Machine.step w r env) (Machine.step w' r env) := by
  obtain ⟨phases, hprocs, hinv⟩ := hw
  by_cases hended : ∀ k next, w.procs r ≠ .call k next
  · have hended' : ∀ k next, w'.procs r ≠ .call k next := by
      rw [h.procs r hr]
      exact hended
    rw [Machine.step_of_ended env hended, Machine.step_of_ended env hended']
    exact h
  · obtain ⟨k, next, hcall⟩ : ∃ k next, w.procs r = .call k next := by
      simpa using hended
    obtain ⟨reply, state, hexec⟩ := exec_total env w.state r k
    have hexec' := exec_tasksOf hinv hfresh (by rw [← hcall, hprocs]) hexec
    rw [hr, ← h.tasks] at hexec'
    rw [Machine.step_of_call hcall hexec,
      Machine.step_of_call ((h.procs r hr).trans hcall) hexec']
    refine ⟨?_, rfl⟩
    intro r' hr'
    by_cases hne : r' = r
    · subst hne
      exact (Function.update_self r' (next reply) w'.procs).trans
        (Function.update_self r' (next reply) w.procs).symm
    · refine (Function.update_of_ne hne _ _).trans ?_
      exact (h.procs r' hr').trans (Function.update_of_ne hne _ _).symm

/-- The steps of a client's requests. -/
def stepsOf (requests : ρ → TaskRequest) (clientId : String)
    (schedule : List (ρ × TaskChoice pg)) : List (ρ × TaskChoice pg) :=
  schedule.filter fun s => (requests s.1).clientId = clientId

variable {sha256 : String → String} {deps : A2aDeps}

theorem afterRequests_concat (schedule : List (ρ × TaskChoice pg)) (s : ρ × TaskChoice pg) :
    afterRequests sha256 deps toNumber requests (schedule ++ [s]) =
      Machine.step (afterRequests sha256 deps toNumber requests schedule) s.1 s.2 :=
  Machine.run_concat (M := taskStore pg ρ) _ schedule s

theorem sees_own_steps
    (hsame : ∀ r, (requests r).clientId = clientId → requests r = requests' r)
    (schedule : List (ρ × TaskChoice pg))
    (hfresh : (drawnIds (afterRequests sha256 deps toNumber requests schedule).history).Nodup) :
    Sees requests clientId (afterRequests sha256 deps toNumber requests schedule)
      (afterRequests sha256 deps toNumber requests' (stepsOf requests clientId schedule)) := by
  induction schedule using List.reverseRecOn with
  | nil =>
    refine ⟨fun r hr => ?_, rfl⟩
    change (requests' r).serve sha256 deps toNumber = (requests r).serve sha256 deps toNumber
    rw [hsame r hr]
  | append_singleton schedule s ih =>
    rw [afterRequests_concat] at hfresh ⊢
    have hbefore :
        (drawnIds (afterRequests sha256 deps toNumber requests schedule).history).Nodup := by
      rcases Machine.step_cases (afterRequests sha256 deps toNumber requests schedule) s.1 s.2 with
        heq | ⟨k, next, reply, state, -, -, heq⟩
      · rwa [heq] at hfresh
      · rw [heq, drawnIds, List.filterMap_append] at hfresh
        exact hfresh.of_append_left
    have hsees := ih hbefore
    by_cases hs : (requests s.1).clientId = clientId
    · have hsteps : stepsOf requests clientId (schedule ++ [s]) =
          stepsOf requests clientId schedule ++ [s] := by simp [stepsOf, hs]
      rw [hsteps, afterRequests_concat]
      exact hsees.step_own (describes_afterRequests _ _ _ _ _) hbefore hs
    · have hsteps : stepsOf requests clientId (schedule ++ [s]) =
          stepsOf requests clientId schedule := by simp [stepsOf, hs]
      rw [hsteps]
      exact hsees.step_other (describes_afterRequests _ _ _ _ _) hs

theorem procs_eq_of_own_steps {schedule schedule' : List (ρ × TaskChoice pg)}
    (hsame : ∀ r, (requests r).clientId = clientId ∨ (requests' r).clientId = clientId →
      requests r = requests' r)
    (hsteps : stepsOf requests clientId schedule = stepsOf requests' clientId schedule')
    (hfresh : (drawnIds (afterRequests sha256 deps toNumber requests schedule).history).Nodup)
    (hfresh' : (drawnIds (afterRequests sha256 deps toNumber requests' schedule').history).Nodup)
    {r : ρ} (hr : (requests r).clientId = clientId) :
    (afterRequests sha256 deps toNumber requests schedule).procs r =
      (afterRequests sha256 deps toNumber requests' schedule').procs r := by
  have hleft := sees_own_steps (fun r hr => hsame r (.inl hr)) schedule hfresh
  have hright : Sees requests' clientId _ _ := sees_own_steps (fun r _ => rfl) schedule' hfresh'
  have hr' : (requests' r).clientId = clientId := hsame r (.inl hr) ▸ hr
  rw [← hleft.procs r hr, ← hright.procs r hr', hsteps]

end Isolation

/-- `GetTask` returns what `SendMessage` reported to the same client, otherwise the answer about an
unknown id; the answers to a client do not depend on the requests of others. -/
theorem getTask_retrieves_own {ρ : Type} [DecidableEq ρ] (sha256 : String → String) (deps : A2aDeps)
    (toNumber : Text → Num) (pg : Postgres) :
    (∀ (requests : ρ → TaskRequest) (before after : List (ρ × TaskChoice pg)) r r' params params'
        id status result uuid reply,
      (requests r).method = .sendMessage params →
      (afterRequests sha256 deps toNumber requests before).procs r =
        .ret (.result id status result) →
      (requests r').method = .getTask params' →
      (requests r').clientId = (requests r).clientId →
      pg.uuid id = some uuid → Names pg params' uuid →
      (∀ s ∈ before, s.1 ≠ r') →
      (afterRequests sha256 deps toNumber requests (before ++ after)).procs r' = .ret reply →
      ∃ result', reply = .result uuid status result' ∧ SameJson result result') ∧
    (∀ (requests : ρ → TaskRequest) (schedule : List (ρ × TaskChoice pg)) r params reply,
      (requests r).method = .getTask params →
      (afterRequests sha256 deps toNumber requests schedule).procs r = .ret reply →
      reply = unknownReply params ∨ ∃ uuid, Names pg params uuid ∧
        RepliesStored requests (afterRequests sha256 deps toNumber requests schedule).history
          (requests r).clientId uuid reply) ∧
    ∀ (requests requests' : ρ → TaskRequest) (schedule schedule' : List (ρ × TaskChoice pg))
        clientId,
      (∀ r, (requests r).clientId = clientId ∨ (requests' r).clientId = clientId →
        requests r = requests' r) →
      stepsOf requests clientId schedule = stepsOf requests' clientId schedule' →
      (drawnIds (afterRequests sha256 deps toNumber requests schedule).history).Nodup →
      (drawnIds (afterRequests sha256 deps toNumber requests' schedule').history).Nodup →
      ∀ r, (requests r).clientId = clientId →
        (afterRequests sha256 deps toNumber requests schedule).procs r =
          (afterRequests sha256 deps toNumber requests' schedule').procs r := by
  refine ⟨?_, ?_, ?_⟩
  · intro requests before after r r' params params' id status result uuid reply hr hret hr' hclient
      hid hnames hlater hreply
    exact retrieved_of_reported hr hret hr' hclient hid hnames hlater hreply
  · intro requests schedule r params reply hr hreply
    exact unknown_or_stored hr hreply
  · intro requests requests' schedule schedule' clientId hsame hsteps hfresh hfresh' r hr
    exact procs_eq_of_own_steps hsame hsteps hfresh hfresh' hr

/-- Every command succeeds as it does on an empty log. -/
def answering : TaskChoice anyId where
  choice := untroubled
  answer k := (perform untroubled (tasksOnly []) (match k with
    | .begin => .idle
    | _ => .active []) k).map (·.reply)
  answers h := by
    obtain ⟨eff, heff, rfl⟩ := Option.map_eq_some_iff.mp h
    exact answers_of_perform heff

def clientOf (clientId : String) : A2aClientEntry := { clientId, allowedSkills := ["review"] }

def reviewParams : Json := .obj [(ofString "skill", .scalar (.str (ofString "review")))]

def vendorParams : Json := .obj [(ofString "id", .scalar (.str (ofString vendorId)))]

/-- A client sends a message and asks for its task, beside a request of another client. -/
def sendAndGet (other : TaskMethod) : Fin 3 → TaskRequest
  | 0 => ⟨clientOf "crm", .sendMessage reviewParams⟩
  | 1 => ⟨clientOf "crm", .getTask vendorParams⟩
  | 2 => ⟨clientOf "erp", other⟩

def afterBoth (other : TaskMethod) (schedule : List (Fin 3)) :
    (taskStore anyId (Fin 3)).World Thrown SendMessageReply :=
  afterRequests (fun _ => "h") { spec := vendorApp, procedures := [], driverMessage := [] }
    (fun _ => .zero false) (sendAndGet other) (schedule.map fun r => (r, answering))

/-- The task and its status that a program has returned. -/
def reported (p : Prog (Cmd.Reply (E := store anyId)) Thrown SendMessageReply) :
    Option (Uuid × TaskStatus) :=
  match p with
  | .ret (.result id status _) => some (id, status)
  | _ => none

theorem result_of_reported {p : Prog (Cmd.Reply (E := store anyId)) Thrown SendMessageReply}
    {id : Uuid} {status : TaskStatus} (h : reported p = some (id, status)) :
    ∃ result, p = .ret (.result id status result) := by
  unfold reported at h
  split at h
  · cases h
    exact ⟨_, rfl⟩
  · exact absurd h (by simp)

theorem getTask_retrieves_own_crm :
    (∃ result result', (afterBoth (.getTask vendorParams) (List.replicate 19 0)).procs 0 =
        .ret (.result vendorId .failed result) ∧
      (afterBoth (.getTask vendorParams) (List.replicate 19 0 ++ [1])).procs 1 =
        .ret (.result vendorId .failed result') ∧ SameJson result result') ∧
    (afterBoth (.getTask vendorParams) (2 :: List.replicate 19 0 ++ [1])).procs 1 =
      (afterBoth (.sendMessage reviewParams) (2 :: 2 :: List.replicate 19 0 ++ [1])).procs 1 := by
  obtain ⟨hretrieves, -, hisolated⟩ := getTask_retrieves_own (ρ := Fin 3) (fun _ => "h")
    { spec := vendorApp, procedures := [], driverMessage := [] } (fun _ => .zero false) anyId
  constructor
  · have hsent : reported ((afterBoth (.getTask vendorParams) (List.replicate 19 0)).procs 0) =
        some (vendorId, .failed) := by decide +kernel
    have hgot : reported ((afterBoth (.getTask vendorParams) (List.replicate 19 0 ++ [1])).procs 1) =
        some (vendorId, .failed) := by decide +kernel
    obtain ⟨result, hsent⟩ := result_of_reported hsent
    obtain ⟨result', hgot⟩ := result_of_reported hgot
    have hreply := hgot
    rw [afterBoth, List.map_append] at hreply
    obtain ⟨stored, heq, hsame⟩ := hretrieves (sendAndGet (.getTask vendorParams)) _ _ 0 1
      reviewParams vendorParams vendorId .failed result vendorId _ rfl hsent rfl rfl
      (by decide +kernel) ⟨_, rfl, by decide +kernel, by decide +kernel⟩ (by decide) hreply
    cases heq
    exact ⟨result, result', hsent, hgot, hsame⟩
  · have hsame : ∀ r, (sendAndGet (.getTask vendorParams) r).clientId = "crm" ∨
        (sendAndGet (.sendMessage reviewParams) r).clientId = "crm" →
          sendAndGet (.getTask vendorParams) r = sendAndGet (.sendMessage reviewParams) r := by
      intro r hr
      match r with
      | 0 | 1 => rfl
      | 2 => exact absurd hr (by decide)
    exact hisolated (sendAndGet (.getTask vendorParams)) (sendAndGet (.sendMessage reviewParams)) _ _
      "crm" hsame rfl (by decide +kernel) (by decide +kernel) 1 rfl

end OpenRupiv.Runtime
