import OpenRupiv.Agents.Runtime
import OpenRupiv.Lib.Runs

/-!
# Tool calls that run

Whatever the policy engine, the database and the sandbox reply, a tool that was executed has its
result recorded and returned.
-/

namespace OpenRupiv.Agents

open Js Lib Spec Audit OpenRupiv.Runtime

variable {pg : Postgres}

/-- Commands that dispatch nothing. -/
def staysIn : Cmd (store pg) → Prop
  | .ext (.dispatch _) => False
  | _ => True

theorem append_staysIn (sha256 : String → String) (input : AuditRecordInput) :
    (append sha256 input : Async pg Thrown AuditRecord).Uses staysIn := by
  have hscrubbed : ∀ input : AuditRecordInput,
      (appendScrubbed sha256 input : Async pg Thrown AuditRecord).Uses staysIn := by
    intro input
    refine (Prog.uses_perform trivial).bind fun _ => (Prog.uses_perform trivial).bind fun tail => ?_
    refine (Prog.uses_perform trivial).bind fun timestamp => ?_
    exact (Prog.uses_perform trivial).bind fun _ => trivial
  have hinside : (Runtime.appendInTransaction sha256 true input : Async pg Thrown AuditRecord).Uses
      staysIn := by
    unfold Runtime.appendInTransaction
    dsimp only
    split
    · exact (Prog.uses_perform trivial).bind fun _ => hscrubbed _
    · exact hscrubbed _
  unfold append transaction
  refine (Prog.uses_perform trivial).bind fun _ => Prog.Uses.bind (Prog.Uses.result ?_) ?_
  · refine (Prog.uses_perform trivial).bind fun _ => hinside.bind fun value => ?_
    exact (Prog.uses_perform trivial).bind fun _ => trivial
  · intro outcome
    cases outcome with
    | ok value => exact (Prog.uses_perform trivial).bind fun _ => trivial
    | error e =>
      refine (Prog.uses_attempt trivial).bind fun _ => ?_
      exact (Prog.uses_perform trivial).bind fun _ => trivial

/-- The tool was executed with this result. -/
def Executed (trace : List (Prog.Answered (Cmd.Reply (E := store pg)))) (result : SandboxResult) :
    Prop :=
  ∃ tool entrypoint workspaceDir input,
    (⟨.ext (.dispatch (.sandbox tool entrypoint workspaceDir input)), some (.ok result)⟩ :
      Prog.Answered (Cmd.Reply (E := store pg))) ∈ trace

/-- The duration of a result can be read. -/
def Timed (trace : List (Prog.Answered (Cmd.Reply (E := store pg)))) : Prop :=
  (⟨.ext .elapsed, none⟩ : Prog.Answered (Cmd.Reply (E := store pg))) ∉ trace

section

variable {first trace : List (Prog.Answered (Cmd.Reply (E := store pg)))} {result : SandboxResult}

theorem executed_of_append (hfirst : ∀ a ∈ first, staysIn a.1)
    (h : Executed (first ++ trace) result) : Executed trace result := by
  obtain ⟨tool, entrypoint, workspaceDir, input, hmem⟩ := h
  rcases List.mem_append.mp hmem with hin | hin
  · exact absurd (hfirst _ hin) not_false
  · exact ⟨tool, entrypoint, workspaceDir, input, hin⟩

theorem not_executed_of_staysIn (htrace : ∀ a ∈ trace, staysIn a.1) : ¬ Executed trace result := by
  rintro ⟨tool, entrypoint, workspaceDir, input, hmem⟩
  exact htrace _ hmem

theorem executed_of_cons {k : Cmd (store pg)} {r : Option k.Reply} (hk : staysIn k)
    (h : Executed (⟨k, r⟩ :: trace) result) : Executed trace result :=
  executed_of_append (by simpa using hk) (List.singleton_append ▸ h)

end

theorem suffix_of_steps {α : Type} (a b c d : α) (first last : List α) :
    last <:+ a :: (first ++ b :: c :: d :: last) :=
  ⟨a :: (first ++ [b, c, d]), by simp⟩

/-- A call that executed its tool maps the result, and appends its record before. -/
theorem callTool_executed {sha256 : String → String} {deps : CreateAgentRuntimeDeps}
    {identity : AgentIdentity} {task : AgentTaskDef} {req : ToolCallRequest}
    {trace : List (Prog.Answered (Cmd.Reply (E := store pg)))} {o : Except Thrown ToolCallResult}
    (h : (callTool sha256 deps identity task req).Run trace o) (htimed : Timed trace)
    {result : SandboxResult} (hexecuted : Executed trace result) :
    o = .ok (mapSandboxResult result) ∧ ∃ durationMs recorded r, recorded <:+ trace ∧
      (append sha256 (toolResultRecord sha256 identity task req result durationMs) :
        Async pg Thrown AuditRecord).Run recorded r := by
  have hnil : ¬ Executed ([] : List (Prog.Answered (Cmd.Reply (E := store pg)))) result :=
    not_executed_of_staysIn (by simp)
  unfold callTool at h
  split at h
  · obtain ⟨rfl, -⟩ := Prog.run_ret_iff.mp h
    exact absurd hexecuted hnil
  split at h
  · obtain ⟨rfl, -⟩ := Prog.run_ret_iff.mp h
    exact absurd hexecuted hnil
  split at h
  · obtain ⟨rfl, -⟩ := Prog.run_ret_iff.mp h
    exact absurd hexecuted hnil
  rcases Prog.run_perform_bind_iff.mp h with ⟨decision, rest, rfl, hdecided⟩ | ⟨rfl, -⟩
  case inr => exact absurd (executed_of_cons (by trivial) hexecuted) hnil
  replace hexecuted := executed_of_cons (by trivial) hexecuted
  obtain ⟨appended, first, rest, hfirst, hcalled, rfl⟩ := Prog.run_result_bind_iff.mp hdecided
  replace hexecuted := executed_of_append (hfirst.uses (append_staysIn _ _)) hexecuted
  cases appended with
  | error e =>
    obtain ⟨rfl, -⟩ := Prog.run_ret_iff.mp hcalled
    exact absurd hexecuted hnil
  | ok record =>
    dsimp only at hcalled
    split at hcalled
    · obtain ⟨rfl, -⟩ := Prog.run_ret_iff.mp hcalled
      exact absurd hexecuted hnil
    rcases Prog.run_perform_bind_iff.mp hcalled with ⟨id, rest, rfl, hdrawn⟩ | ⟨rfl, -⟩
    case inr => exact absurd (executed_of_cons (by trivial) hexecuted) hnil
    replace hexecuted := executed_of_cons (by trivial) hexecuted
    rcases Prog.run_perform_bind_iff.mp hdrawn with ⟨answer, rest, rfl, hanswered⟩ | ⟨rfl, -⟩
    case inr =>
      obtain ⟨tool, entrypoint, workspaceDir, input, hmem⟩ := hexecuted
      exact absurd (List.mem_singleton.mp hmem) (by simp)
    cases answer with
    | error message =>
      obtain ⟨rfl, -⟩ := Prog.run_throw_iff.mp hanswered
      obtain ⟨tool, entrypoint, workspaceDir, input, hmem⟩ := hexecuted
      exact absurd (List.mem_singleton.mp hmem) (by simp)
    | ok executed =>
      rcases Prog.run_perform_bind_iff.mp hanswered with ⟨durationMs, rest, rfl, htold⟩ | ⟨rfl, -⟩
      case inr => exact absurd (by simp) htimed
      obtain ⟨r, recorded, last, hrecorded, hreturned, rfl⟩ := Prog.run_result_bind_iff.mp htold
      obtain ⟨rfl, rfl⟩ := Prog.run_ret_iff.mp hreturned
      rw [List.append_nil] at hexecuted htimed ⊢
      -- the only tool that was executed is this one
      have hresult : executed = result := by
        obtain ⟨tool, entrypoint, workspaceDir, input, hmem⟩ := hexecuted
        rcases List.mem_cons.mp hmem with heq | hrest
        · simp only [Sigma.mk.injEq, Cmd.ext.injEq, Ext.dispatch.injEq, Dispatch.sandbox.injEq] at heq
          obtain ⟨⟨rfl, rfl, rfl, rfl⟩, hreply⟩ := heq
          exact (Except.ok.inj (Option.some.inj (eq_of_heq hreply))).symm
        · rcases List.mem_cons.mp hrest with heq | hin
          · exact absurd heq (by simp)
          · exact absurd (hrecorded.uses (append_staysIn _ _) _ hin) not_false
      subst hresult
      exact ⟨rfl, durationMs, recorded, r, suffix_of_steps _ _ _ _ first recorded, hrecorded⟩

end OpenRupiv.Agents
