import OpenRupiv.Agents.ToolCalls
import OpenRupiv.Js.Access
import OpenRupiv.Js.Parse
import OpenRupiv.Sandbox.Server

/-!
# The sidecar client

`createSidecarSandbox` of `packages/sandbox/src/client.ts`, and what `callTool` of the agent runtime
makes of its results.
-/

namespace OpenRupiv.Sandbox

open Js

structure SandboxExecuteInput where
  entrypoint : Text
  input : Json
  workspaceDir : Text
  limits : Json

/-- What is sent to the sidecar. -/
structure FetchRequest where
  url : Text
  authorization : Text
  body : Text

/-- What comes of a request: the message of an error, or a status with the value or the error of
`response.json()`. -/
inductive Fetched where
  | failed (message : Text)
  | response (status : Nat) (body : Except Text Json)

structure CreateSidecarSandboxOptions where
  baseUrl : Text
  token : Text
  fetchImpl : FetchRequest → Fetched

/-- A `tool_error` that the client makes itself. -/
def sidecarError (message : Text) (durationMs : Int) : Json :=
  .obj [(ofString "ok", .scalar (.bool false)),
    (ofString "reason", .scalar (.str (ofString "tool_error"))),
    (ofString "message", .scalar (.str (ofString "createSidecarSandbox: " ++ message))),
    (ofString "durationMs", .scalar (.num (.ofInt durationMs)))]

namespace CreateSidecarSandboxOptions

variable (opts : CreateSidecarSandboxOptions) (input : SandboxExecuteInput)

def request (runId : Text) : FetchRequest where
  url := opts.baseUrl ++ ofString "/v1/execute"
  authorization := ofString "Bearer " ++ opts.token
  body := stringifyText (.obj [(ofString "runId", .scalar (.str runId)),
    (ofString "tool", .scalar (.str input.entrypoint)), (ofString "input", input.input),
    (ofString "limits", input.limits)])

/-- What is made of the answer; a property of `null` cannot be read. -/
def answer (durationMs : Int) : Fetched → Except Unit Json
  | .failed message => .ok (sidecarError (ofString "request failed: " ++ message) durationMs)
  | .response status body =>
      if ¬(200 ≤ status ∧ status ≤ 299) then
        .ok (sidecarError (ofString ("sidecar returned HTTP " ++ toString status)) durationMs)
      else
        match body with
        | .error message =>
            .ok (sidecarError (ofString "failed to parse sidecar response: " ++ message) durationMs)
        | .ok body =>
            match property (some body) "ok" with
            | none => .error ()
            | some (some (.scalar (.bool _))) => .ok body
            | some _ => .ok (sidecarError (ofString "sidecar returned a malformed result") durationMs)

/-- `createSidecarSandbox(opts).execute(input)`; an error is a rejection. -/
def execute (durationMs : Int) : Except Unit Json :=
  match extractRunId input.workspaceDir with
  | none =>
      .ok (sidecarError (ofString "workspaceDir \"" ++ input.workspaceDir ++
        ofString "\" does not carry a valid runId") 0)
  | some runId => answer durationMs (opts.fetchImpl (opts.request input runId))

end CreateSidecarSandboxOptions

open OpenRupiv.Runtime hiding property

def textMember (ms : List (Text × Json)) (key : String) : Option Text :=
  match ms.lookup (ofString key) with
  | some (.scalar (.str s)) => some s
  | _ => none

def isNumberMember (ms : List (Text × Json)) (key : String) : Bool :=
  match ms.lookup (ofString key) with
  | some (.scalar (.num _)) => true
  | _ => false

def failureOf (ms : List (Text × Json)) : Option SandboxFailure :=
  match textMember ms "reason" with
  | none => none
  | some reason =>
      if reason = ofString "violation" then
        (([("network_egress", true), ("fs_escape", false)].find? fun v =>
          textMember ms "violation" = some (ofString v.1)).map fun v => .violation v.2)
      else if reason = ofString "limit" then
        (["wall_clock", "memory", "output_size"].find? fun what =>
          textMember ms "limit" = some (ofString what)).map .limit
      else if reason = ofString "tool_error" then some .tool_error
      else none

/-- The `SandboxExecuteResult` that a value is, with all the fields of its variant. -/
def resultOf : Json → Option SandboxResult
  | .obj ms =>
      if isNumberMember ms "durationMs" then
        match ms.lookup (ofString "ok") with
        | some (.scalar (.bool true)) => (ms.lookup (ofString "output")).map .ok
        | some (.scalar (.bool false)) => do
            let reason ← failureOf ms
            let message ← textMember ms "message"
            return .failed reason message
        | _ => none
      else none
  | _ => none

theorem resultOf_sidecarError (message : Text) (durationMs : Int) :
    resultOf (sidecarError message durationMs) =
      some (.failed .tool_error (ofString "createSidecarSandbox: " ++ message)) := by
  rfl

/-- A successful answer with `null`, or with an object that says whether it is `ok` and is still no
complete result. -/
def Fetched.Misleads : Fetched → Prop
  | .response status (.ok body) =>
      200 ≤ status ∧ status ≤ 299 ∧
        (body = .scalar .null ∨ resultOf body = none ∧
          ∃ ms b, body = .obj ms ∧ ms.lookup (ofString "ok") = some (.scalar (.bool b)))
  | _ => False

namespace CreateSidecarSandboxOptions

variable (opts : CreateSidecarSandboxOptions) (input : SandboxExecuteInput)

theorem property_eq_some {v w : Json} {key : String} (h : property (some v) key = some (some w)) :
    ∃ ms, v = .obj ms ∧ ms.lookup (ofString key) = some w := by
  unfold property at h
  split at h
  · exact absurd h (by simp)
  · exact absurd h (by simp)
  · rename_i ms hv
    exact ⟨ms, Option.some.inj hv, Option.some.inj h⟩
  · exact absurd h (by simp)

theorem answer_result_iff (durationMs : Int) (fetched : Fetched) :
    (∃ v result, answer durationMs fetched = .ok v ∧ resultOf v = some result) ↔
      ¬ fetched.Misleads := by
  have herror : ∀ message, ∃ v result,
      (Except.ok (sidecarError message durationMs) : Except Unit Json) = .ok v ∧
        resultOf v = some result :=
    fun message => ⟨_, _, rfl, resultOf_sidecarError message durationMs⟩
  cases fetched with
  | failed message => exact iff_of_true (herror _) not_false
  | response status body =>
    by_cases hstatus : 200 ≤ status ∧ status ≤ 299
    · cases body with
      | error message =>
        simp only [answer, hstatus]
        exact iff_of_true (herror _) not_false
      | ok body =>
        simp only [answer, Fetched.Misleads, hstatus, not_true, if_false, true_and]
        split
        · rename_i hnull
          have hbody : body = .scalar .null := by
            unfold property at hnull
            split at hnull <;> simp_all
          simp [hbody]
        · rename_i b hok
          obtain ⟨ms, rfl, hlookup⟩ := property_eq_some hok
          have hexists : (∃ v result, (Except.ok (Json.obj ms) : Except Unit Json) = .ok v ∧
              resultOf v = some result) ↔ resultOf (.obj ms) ≠ none := by
            rw [Option.ne_none_iff_exists']
            simp
          rw [hexists]
          simp [hlookup]
        · rename_i x hok hnone
          refine iff_of_true (herror _) ?_
          rintro (rfl | ⟨-, ms, b, rfl, hlookup⟩)
          · exact absurd hnone (by simp [property])
          · rw [property, Option.some.injEq, hlookup] at hnone
            exact hok b hnone.symm
    · simp only [answer, Fetched.Misleads, hstatus, not_false_eq_true, if_true]
      refine iff_of_true (herror _) ?_
      cases body with
      | error message => exact not_false
      | ok body => exact fun h => hstatus ⟨h.1, h.2.1⟩

/-- Whatever came back, a call of a tool that got this result returns it mapped and appends its
record. -/
def Handled (result : SandboxResult) : Prop :=
  ∀ {pg : Postgres} {sha256 deps identity task req}
    {trace : List (Lib.Prog.Answered (Lib.Cmd.Reply (E := store pg)))} {o},
    (Agents.callTool sha256 deps identity task req : Async pg Runtime.Thrown _).Run trace o →
    Agents.Timed trace → Agents.Executed trace result →
    o = .ok (Agents.mapSandboxResult result) ∧ ∃ durationMs recorded r, recorded <:+ trace ∧
      (append sha256 (Agents.toolResultRecord sha256 identity task req result durationMs) :
        Async pg Runtime.Thrown Audit.AuditRecord).Run recorded r

/-- The client resolves to a complete result, which is then handled, unless the sidecar misleads it. -/
theorem execute_handled_iff (opts : CreateSidecarSandboxOptions) (input : SandboxExecuteInput)
    (durationMs : Int) :
    (∃ v result, opts.execute input durationMs = .ok v ∧ resultOf v = some result ∧
        Handled result) ↔
      ∀ runId, extractRunId input.workspaceDir = some runId →
        ¬ (opts.fetchImpl (opts.request input runId)).Misleads := by
  have hhandled : (∃ v result, opts.execute input durationMs = .ok v ∧ resultOf v = some result ∧
      Handled result) ↔
        ∃ v result, opts.execute input durationMs = .ok v ∧ resultOf v = some result := by
    constructor
    · rintro ⟨v, result, hv, hresult, -⟩
      exact ⟨v, result, hv, hresult⟩
    · rintro ⟨v, result, hv, hresult⟩
      exact ⟨v, result, hv, hresult, fun hrun htimed hexecuted =>
        Agents.callTool_executed hrun htimed hexecuted⟩
  rw [hhandled, execute]
  cases extractRunId input.workspaceDir with
  | none => exact iff_of_true ⟨_, _, rfl, resultOf_sidecarError _ 0⟩ (by simp)
  | some runId =>
    simp only [Option.some.injEq, forall_eq']
    exact answer_result_iff durationMs _

/-- A sidecar that answers everything alike. -/
def answering (fetched : Fetched) : CreateSidecarSandboxOptions where
  baseUrl := ofString "http://sandbox:8099"
  token := ofString "token"
  fetchImpl _ := fetched

def sampleInput : SandboxExecuteInput where
  entrypoint := ofString "read-vendor-application"
  input := .obj []
  workspaceDir := ofString "/workspaces/6f1f64c2-2f6e-4b0e-9a51-0d3a1f2b7c11"
  limits := .obj []

/-- `null` makes the client reject, and a result without its output goes through. -/
theorem execute_misled :
    (answering (.response 200 (.ok (.scalar .null)))).execute sampleInput 5 = .error () ∧
      (answering (.response 200 (.ok (.obj [(ofString "ok", .scalar (.bool true))])))).execute
        sampleInput 5 = .ok (.obj [(ofString "ok", .scalar (.bool true))]) ∧
      resultOf (.obj [(ofString "ok", .scalar (.bool true))]) = none := by
  have hrunId : (extractRunId sampleInput.workspaceDir).isSome = true := by decide
  obtain ⟨runId, hrunId⟩ := Option.isSome_iff_exists.mp hrunId
  unfold execute
  rw [hrunId]
  exact ⟨rfl, rfl, rfl⟩

end CreateSidecarSandboxOptions

end OpenRupiv.Sandbox
