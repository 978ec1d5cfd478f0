import OpenRupiv.Runtime.TaskRuns
import OpenRupiv.Runtime.Tasks

/-!
# Replies to any JSON

When the stores are available, `SendMessage` and `GetTask` answer whatever they are sent, but for a
`null` among the parts of a message.
-/

namespace OpenRupiv.Runtime

open Js Lib Spec Audit

def isDataPart (part : Json) : Prop :=
  Mcp.property part "kind" = some (.scalar (.str (ofString "data")))

/-- There is a `null` before the first part whose kind is `data`. -/
def NullBeforeData (parts : List Json) : Prop :=
  ∃ before after, parts = before ++ .scalar .null :: after ∧ ∀ part ∈ before, ¬ isDataPart part

theorem nullBeforeData_cons_iff {part : Json} {rest : List Json} :
    NullBeforeData (part :: rest) ↔ part = .scalar .null ∨ ¬ isDataPart part ∧ NullBeforeData rest := by
  constructor
  · intro h
    obtain ⟨before, after, hparts, hbefore⟩ := h
    cases before with
    | nil => exact .inl (List.cons.inj hparts).1
    | cons first before =>
      obtain ⟨rfl, rfl⟩ := List.cons.inj hparts
      obtain ⟨hfirst, hbefore⟩ := List.forall_mem_cons.mp hbefore
      exact .inr ⟨hfirst, before, after, rfl, hbefore⟩
  · rintro (rfl | ⟨hpart, before, after, rfl, hbefore⟩)
    · exact ⟨[], rest, rfl, by simp⟩
    · exact ⟨part :: before, after, rfl, List.forall_mem_cons.mpr ⟨hpart, hbefore⟩⟩

theorem findDataPart_cons {part : Json} {rest : List Json} (hnull : part ≠ .scalar .null) :
    (isDataPart part → findDataPart (part :: rest) = .ok (some part)) ∧
      (¬ isDataPart part → findDataPart (part :: rest) = findDataPart rest) := by
  rw [findDataPart, isDataPart]
  · split
    · rename_i kind hkind
      rw [hkind]
      split
      · rename_i heq
        exact ⟨fun _ => rfl, fun h => absurd (heq ▸ rfl) h⟩
      · rename_i hne
        refine ⟨fun h => absurd ?_ hne, fun _ => rfl⟩
        simpa using h
    · rename_i hother
      exact ⟨fun h => absurd h (hother _), fun _ => rfl⟩
  · exact hnull

/-- The search throws exactly at a `null` that it comes to. -/
theorem findDataPart_eq_error_iff {parts : List Json} :
    findDataPart parts = .error () ↔ NullBeforeData parts := by
  induction parts with
  | nil =>
    refine iff_of_false (by simp [findDataPart]) ?_
    rintro ⟨before, after, hparts, -⟩
    simp at hparts
  | cons part rest ih =>
    rw [nullBeforeData_cons_iff]
    by_cases hnull : part = .scalar .null
    · exact iff_of_true (by rw [hnull, findDataPart]) (.inl hnull)
    · obtain ⟨hdata, hother⟩ := @findDataPart_cons part rest hnull
      by_cases hpart : isDataPart part
      · rw [hdata hpart]
        simp [hnull, hpart]
      · rw [hother hpart, ih]
        simp [hnull, hpart]

/-- Calls whose failure the handlers catch or do not look at. -/
def TaskCall.Guarded : TaskCall → Prop
  | .contextFor _ | .procedure _ _ _ | .logTaskLookupFailed _ _ | .logTaskFailed _ _ => True
  | _ => False

namespace TaskCall

variable (deps : A2aDeps) (client : A2aClientEntry)

theorem completes_runProcedure (skill : String) (ctx : AgentContext) (input : Json) :
    (runProcedure client skill ctx input).Completes Guarded := by
  unfold runProcedure
  apply Prog.completes_issue_bind
  intro answer
  split
  · apply Prog.completes_attempt_bind
    exact Prog.completes_perform_bind not_false fun _ => Prog.completes_ret _
  · exact Prog.completes_perform_bind not_false fun _ => Prog.completes_ret _

theorem completes_runSkill (skill : String) (input : Json) :
    (runSkill deps client skill input).Completes Guarded := by
  unfold runSkill
  split
  · exact Prog.completes_ret _
  apply Prog.completes_issue_bind
  intro found
  split
  · exact Prog.completes_attempt_bind (Prog.completes_ret _)
  · exact Prog.completes_ret _
  · exact completes_runProcedure client skill _ input

theorem completes_runTask (skill : String) (input : Json) :
    (runTask deps client skill input).Completes Guarded := by
  unfold runTask
  apply Prog.completes_perform_bind not_false
  intro taskId
  apply (completes_runSkill deps client skill input).bind
  intro result
  apply Prog.completes_perform_bind not_false
  intro _
  exact Prog.completes_perform_bind not_false fun _ => Prog.completes_ret _

theorem completes_callSkill (skill : String) (input : Json) :
    (callSkill deps client skill input).Completes Guarded := by
  unfold callSkill
  apply Prog.completes_perform_bind not_false
  intro decision
  apply Prog.completes_perform_bind not_false
  intro audited
  split
  · exact Prog.completes_ret _
  split
  · exact Prog.completes_ret _
  · exact completes_runTask deps client skill input

/-- The handler throws of itself only at a `null` part. -/
theorem completes_handleSendMessage_iff (params : Json) :
    (handleSendMessage deps client params).Completes Guarded ↔
      ¬ NullBeforeData (messageParts params) := by
  rw [← findDataPart_eq_error_iff]
  unfold handleSendMessage
  dsimp only
  cases findDataPart (messageParts params) with
  | error e => exact iff_of_false Prog.not_completes_throw (by simp)
  | ok dataPart =>
    refine iff_of_true ?_ (by simp)
    dsimp only
    split
    · exact completes_callSkill deps client _ _
    · apply Prog.completes_perform_bind not_false
      intro audited
      split
      · exact Prog.completes_ret _
      · exact Prog.completes_ret _

end TaskCall

section Retrieving

variable {pg : Postgres} {ρ : Type} [DecidableEq ρ] {sha256 : String → String} {deps : A2aDeps}
  {toNumber : Text → Num} {requests : ρ → TaskRequest}

theorem rowReply_of_mem {schedule : List (ρ × TaskChoice pg)} {task : A2aTask}
    (htask : task ∈ (afterRequests sha256 deps toNumber requests schedule).state) :
    ∃ reply, taskReply toNumber task = .ok reply := by
  obtain ⟨phases, -, hinv⟩ := describes_afterRequests sha256 deps toNumber requests schedule
  obtain ⟨r, id, skill, status, result, hstage, -, hid, -⟩ := hinv.owned task htask
  obtain ⟨row, hrow, hof⟩ := hinv.stored r id status result hstage
  obtain rfl : row = task := by
    refine List.inj_on_of_nodup_map hinv.distinct hrow htask ?_
    exact Option.some.inj (hof.id.symm.trans hid)
  exact ⟨_, (hof.reply toNumber).1⟩

/-- Every command of the request was answered. -/
def Served (history : List (taskStore pg ρ).Event) (r : ρ) : Prop :=
  ∀ e ∈ history, e.client = r → e.reply ≠ none

/-- A `GetTask` request is still to be executed, or it has an answer. -/
theorem getTask_answers {r : ρ} {params : Json} (hr : (requests r).method = .getTask params)
    (schedule : List (ρ × TaskChoice pg))
    (hserved : Served (afterRequests sha256 deps toNumber requests schedule).history r) :
    (afterRequests sha256 deps toNumber requests schedule).procs r =
        handleGetTask toNumber (requests r).client params ∨
      ∃ reply, (afterRequests sha256 deps toNumber requests schedule).procs r = .ret reply := by
  induction schedule using List.reverseRecOn with
  | nil =>
    left
    show (requests r).serve sha256 deps toNumber = _
    rw [TaskRequest.serve, hr]
  | append_singleton schedule s ih =>
    rw [afterRequests_concat] at hserved ⊢
    rcases Machine.step_cases (afterRequests sha256 deps toNumber requests schedule) s.1 s.2 with
      heq | ⟨k, next, answer, state, hcall, hexec, heq⟩
    · rw [heq] at hserved ⊢
      exact ih hserved
    rw [heq] at hserved ⊢
    have hbefore := ih fun e he => hserved e (List.mem_append_left _ he)
    by_cases hs : s.1 = r
    · subst hs
      rcases hbefore with hget | ⟨reply, hret⟩
      case inr =>
        rw [hret] at hcall
        cases hcall
      rcases handleGetTask_cases pg toNumber (requests s.1).client params with
        ⟨hnone, -⟩ | ⟨taskId, -, -, -, hselect⟩
      · rw [hget, hnone] at hcall
        cases hcall
      · rw [hget, hselect] at hcall
        cases hcall
        right
        obtain ⟨-, hanswer⟩ := exec_selectTask hexec
        obtain ⟨uuid, -, rfl⟩ := hanswer.resolve_left
          (hserved _ (List.mem_append_right _ (List.mem_singleton_self _)) rfl)
        obtain ⟨reply, hreply⟩ : ∃ reply, rowReply toNumber
            ((afterRequests sha256 deps toNumber requests schedule).state.find? fun task =>
              task.id = uuid ∧ task.clientId = (requests s.1).client.clientId) = .ok reply := by
          cases hfind : (afterRequests sha256 deps toNumber requests schedule).state.find? fun task =>
              task.id = uuid ∧ task.clientId = (requests s.1).client.clientId with
          | none => exact ⟨_, rfl⟩
          | some row => exact rowReply_of_mem (List.mem_of_find?_eq_some hfind)
        refine ⟨reply, (Function.update_self _ _ _).trans ?_⟩
        exact congrArg Prog.ofExcept hreply
    · have hkeep := Function.update_of_ne (Ne.symm hs) (next answer)
        (afterRequests sha256 deps toNumber requests schedule).procs
      exact hbefore.imp hkeep.trans fun hret => hret.imp fun _ => hkeep.trans

/-- A `GetTask` request that has ended has an answer. -/
theorem getTask_answers_of_ended {r : ρ} {params : Json}
    (hr : (requests r).method = .getTask params) (schedule : List (ρ × TaskChoice pg))
    (hserved : Served (afterRequests sha256 deps toNumber requests schedule).history r)
    (hended : ∀ k next,
      (afterRequests sha256 deps toNumber requests schedule).procs r ≠ .call k next) :
    ∃ reply, (afterRequests sha256 deps toNumber requests schedule).procs r = .ret reply := by
  refine (getTask_answers hr schedule hserved).elim (fun hget => ?_) id
  rw [hget] at hended ⊢
  rcases handleGetTask_cases pg toNumber (requests r).client params with
    ⟨hnone, -⟩ | ⟨taskId, -, -, -, hselect⟩
  · exact ⟨_, hnone⟩
  · exact absurd hselect (hended _ _)

end Retrieving

/-- With the stores available, `SendMessage` answers unless there is a `null` before the first data
part, and `GetTask` always answers. -/
theorem a2a_answers_iff (deps : A2aDeps) (client : A2aClientEntry) (params : Json) :
    ((TaskCall.handleSendMessage deps client params).Completes TaskCall.Guarded ↔
        ¬ NullBeforeData (messageParts params)) ∧
      ∀ {pg : Postgres} {ρ : Type} [DecidableEq ρ] (sha256 : String → String)
        (toNumber : Text → Num) (requests : ρ → TaskRequest) (schedule : List (ρ × TaskChoice pg))
        (r : ρ), requests r = ⟨client, .getTask params⟩ →
        Served (afterRequests sha256 deps toNumber requests schedule).history r →
        (∀ k next, (afterRequests sha256 deps toNumber requests schedule).procs r ≠ .call k next) →
        ∃ reply, (afterRequests sha256 deps toNumber requests schedule).procs r = .ret reply := by
  refine ⟨TaskCall.completes_handleSendMessage_iff deps client params, ?_⟩
  intro pg ρ _ sha256 toNumber requests schedule r hr hserved hended
  have hmethod : (requests r).method = .getTask params := by rw [hr]
  exact getTask_answers_of_ended hmethod schedule hserved hended

/-- A message whose only part is `null`. -/
def nullPart : Json :=
  .obj [(ofString "message", .obj [(ofString "parts", .arr [.scalar .null])])]

/-- It is answered with an internal error, before anything is asked of a store. -/
theorem null_part_throws :
    ¬ (TaskCall.handleSendMessage ⟨audits, [], []⟩ ⟨"partner", []⟩ nullPart).Completes
        TaskCall.Guarded ∧
      (handleSendMessage (fun s => s) ⟨audits, [], []⟩ ⟨"partner", []⟩ nullPart :
        Async postgresText Thrown SendMessageReply) = .throw .fault := by
  have hparts : messageParts nullPart = [.scalar .null] := by rfl
  constructor
  · rw [TaskCall.completes_handleSendMessage_iff, hparts, not_not]
    exact ⟨[], [], rfl, by simp⟩
  · unfold handleSendMessage
    rw [hparts]
    rfl

end OpenRupiv.Runtime
