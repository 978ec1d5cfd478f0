import OpenRupiv.Lib.OwnHistory
import OpenRupiv.Sandbox.Canary
import OpenRupiv.Sandbox.Client
import OpenRupiv.Sandbox.RunId

/-!
# A call through the sidecar

What the client sends is read by the supervisor, runs among other requests and is answered; what the
client makes of the answer is what became of the jail.
-/

namespace OpenRupiv.Sandbox

open Js Lib

/-- What `.` of a regular expression does not match. -/
def isLineTerminator (u : UInt16) : Bool := u == 10 || u == 13 || u == 0x2028 || u == 0x2029

/-- `/^Bearer\s+(.+)$/i` on the trimmed header; a trimmed text does not end in white space. -/
def extractBearer (header : Option Text) : Option Text :=
  let value := trim (header.getD [])
  let rest := value.drop 6
  let credentials := rest.dropWhile isWhite
  if matchesHere "bearer" value && rest.head?.any isWhite && credentials ≠ [] &&
      credentials.all fun u => !isLineTerminator u then
    let bearer := trim credentials
    if bearer = [] then none else some bearer
  else none

section

variable (textNumber : Text → Option Num) (toText : Json → Text)

/-- `Number(v)`. -/
def numberOf : Json → Option Num
  | .scalar .null => some (.zero false)
  | .scalar (.bool b) => some (.ofInt (if b then 1 else 0))
  | .scalar (.num n) => some n
  | .scalar (.str s) => textNumber s
  | v => textNumber (toText v)

/-- `Number(limits?.key ?? 0)`. -/
def limitOf (limits : Option Json) (key : String) : Option Num :=
  match limits.bind fun limits => (property (some limits) key).getD none with
  | none | some (.scalar .null) => some (.zero false)
  | some v => numberOf textNumber toText v

/-- What the handler reads of the headers and of the members of the parsed body. -/
def readExecuteRequest (authorization : Option Text) (body : List (Text × Json)) :
    ExecuteRequest where
  bearer := extractBearer authorization
  runId := textMember body "runId"
  tool := textMember body "tool"
  -- `writeToolInput` writes an empty object for `null` and `undefined`
  input :=
    match body.lookup (ofString "input") with
    | none | some (.scalar .null) => .obj []
    | some input => input
  limits :=
    let limits := body.lookup (ofString "limits")
    { wallClockMs := limitOf textNumber toText limits "wallClockMs"
      memoryBytes := limitOf textNumber toText limits "memoryBytes"
      maxOutputBytes := limitOf textNumber toText limits "maxOutputBytes" }

end

def Violation.name : Violation → String
  | .network_egress => "network_egress"
  | .fs_escape => "fs_escape"

def Limit.name : Limit → String
  | .wall_clock => "wall_clock"
  | .memory => "memory"
  | .output_size => "output_size"

/-- A failure with the members that come after its reason. -/
def failureJson (reason : String) (detail : List (Text × Json)) (message : Text)
    (durationMs : Int) : Json :=
  .obj ([(ofString "ok", .scalar (.bool false)),
      (ofString "reason", .scalar (.str (ofString reason)))] ++ detail ++
    [(ofString "message", .scalar (.str message)),
      (ofString "durationMs", .scalar (.num (.ofInt durationMs)))])

def JailOutcome.toJson : JailOutcome → Json
  | .ok output durationMs =>
      .obj [(ofString "ok", .scalar (.bool true)), (ofString "output", output),
        (ofString "durationMs", .scalar (.num (.ofInt durationMs)))]
  | .violation kind message durationMs =>
      failureJson "violation" [(ofString "violation", .scalar (.str (ofString kind.name)))]
        message durationMs
  | .limit kind message durationMs =>
      failureJson "limit" [(ofString "limit", .scalar (.str (ofString kind.name)))]
        message durationMs
  | .toolError message durationMs => failureJson "tool_error" [] message durationMs

def ReplyBody.toJson : ReplyBody → Json
  | .error code => .obj [(ofString "error", .scalar (.str (ofString code)))]
  | .unhealthy assertions =>
      .obj [(ofString "error", .scalar (.str (ofString "ERR_SANDBOX_UNHEALTHY"))),
        (ofString "assertions", assertions)]
  | .outcome result => result.toJson

/-- The answer as the client sees it; a body that cannot be parsed has the message of its error. -/
def respond (toNumber : Text → Num) (syntaxError : Text) (a : Answer) : Fetched :=
  .response a.code (match parse toNumber (stringifyText a.body.toJson) with
    | some body => .ok body
    | none => .error syntaxError)

/-- What the client sees of a request: the answer of its handler, or status 500 with a body of the
server's own when the handler throws. -/
def respondHandler (toNumber : Text → Num) (syntaxError : Text) (errorBody : Except Text Json) :
    Handler Answer → Option Fetched
  | .ret a => some (respond toNumber syntaxError a)
  | .throw _ => some (.response 500 errorBody)
  | .call _ _ => none

/-- What an outcome is to the client: the output is read again. -/
def JailOutcome.result (toNumber : Text → Num) : JailOutcome → Runtime.SandboxResult
  | .ok output _ => .ok (reread toNumber output)
  | .violation .network_egress message _ => .failed (.violation true) message
  | .violation .fs_escape message _ => .failed (.violation false) message
  | .limit kind message _ => .failed (.limit kind.name) message
  | .toolError message _ => .failed .tool_error message

section

variable {toNumber : Text → Num} {ms ms' : List (Text × Json)}

theorem reread_eq_str_iff {v : Option Json} {s : Text} :
    v.map (reread toNumber) = some (.scalar (.str s)) ↔ v = some (.scalar (.str s)) := by
  cases v with
  | none => simp
  | some v =>
    cases v with
    | scalar a =>
      cases a with
      | num n =>
        simp only [reread, Json.rebuild_scalar, Scalar.reread, Option.map_some]
        split <;> simp
      | null => simp [reread, Scalar.reread]
      | bool b => simp [reread, Scalar.reread]
      | str s => simp [reread, Scalar.reread]
    | arr items => simp [reread]
    | obj ms => simp [reread, Json.rebuild_obj]

theorem textMember_eq_some_iff {key : String} {s : Text} :
    textMember ms key = some s ↔ ms.lookup (ofString key) = some (.scalar (.str s)) := by
  unfold textMember
  split
  · rename_i t ht
    rw [ht]
    simp
  · rename_i hne
    simp only [reduceCtorEq, false_iff]
    exact hne s

theorem textMember_reread
    (hlookup : ∀ k, ms'.lookup k = (ms.lookup k).map (reread toNumber)) (key : String) :
    textMember ms' key = textMember ms key := by
  apply Option.ext
  intro s
  rw [textMember_eq_some_iff, textMember_eq_some_iff, hlookup, reread_eq_str_iff]

theorem distinctKeys_failureJson {reason : String} {key : String} {name : Text} {message : Text}
    {durationMs : Int} (hkey : key = "violation" ∨ key = "limit") :
    (failureJson reason [(ofString key, .scalar (.str name))] message durationMs).distinctKeys =
      true := by
  rw [failureJson, Json.distinctKeys_obj]
  constructor
  · simp only [keysOf, List.cons_append, List.nil_append, List.map_cons, List.map_nil]
    rcases hkey with rfl | rfl <;> decide +kernel
  · simp

def JailOutcome.Parsed : JailOutcome → Prop
  | .ok output _ => output.distinctKeys = true
  | _ => True

theorem parsed_exitOutcome (limits : JailLimits) (jail : Jail) (code : Option Int)
    (signal : Option String) (durationMs : Int) :
    (exitOutcome toNumber limits jail code signal durationMs).Parsed := by
  cases hexit : exitOutcome toNumber limits jail code signal durationMs with
  | ok output d =>
    obtain ⟨-, -, -, -, -, rfl⟩ := exitOutcome_eq_ok hexit
    exact distinctKeys_parseOutput _ _
  | _ => trivial

/-- The output that a jail reports is a value of `JSON.parse`, or a text. -/
theorem parsed_of_runJail {limits : JailLimits} {events : List JailEvent} {outcome : JailOutcome}
    (h : (runJail toNumber limits events).outcome = some outcome) : outcome.Parsed := by
  induction events using List.reverseRecOn with
  | nil => exact absurd h (by simp [runJail])
  | append_singleton events e ih =>
    rw [runJail_concat] at h
    cases e with
    | stdout chunk =>
      simp only [Jail.step] at h
      split at h <;> exact ih h
    | stderr chunk => exact ih h
    | timer =>
      simp only [Jail.step] at h
      split at h <;> exact ih h
    | exit code signal durationMs =>
      simp only [Jail.step] at h
      split at h
      · exact ih h
      · rw [← Option.some.inj h]
        exact parsed_exitOutcome _ _ _ _ _
    | error message durationMs =>
      simp only [Jail.step] at h
      split at h
      · exact ih h
      · rw [← Option.some.inj h]
        trivial

theorem JailOutcome.distinctKeys_toJson {outcome : JailOutcome} (h : outcome.Parsed) :
    outcome.toJson.distinctKeys = true := by
  cases outcome with
  | ok output durationMs =>
    rw [JailOutcome.toJson, Json.distinctKeys_obj]
    constructor
    · simp only [keysOf, List.map_cons, List.map_nil]
      decide +kernel
    · intro m hm
      simp only [List.mem_cons, List.not_mem_nil, or_false] at hm
      rcases hm with rfl | rfl | rfl
      · exact Json.distinctKeys_scalar _
      · exact h
      · exact Json.distinctKeys_scalar _
  | violation violation message durationMs => exact distinctKeys_failureJson (.inl rfl)
  | limit limit message durationMs => exact distinctKeys_failureJson (.inr rfl)
  | toolError message durationMs =>
    rw [JailOutcome.toJson, failureJson, Json.distinctKeys_obj]
    constructor
    · simp only [keysOf, List.cons_append, List.nil_append, List.map_cons, List.map_nil]
      decide +kernel
    · simp

theorem isNumberMember_reread {n : Num} {key : String} (hn : n.isFinite = true)
    (hlookup : ∀ k, ms'.lookup k = (ms.lookup k).map (reread toNumber))
    (hkey : ms.lookup (ofString key) = some (.scalar (.num n))) :
    isNumberMember ms' key = true := by
  rw [isNumberMember, hlookup, hkey]
  simp [reread, Scalar.reread, hn]

theorem resultOf_reread {n : Num} (hn : n.isFinite = true)
    (hdistinct : (Json.obj ms).distinctKeys = true)
    (hduration : ms.lookup (ofString "durationMs") = some (.scalar (.num n))) :
    resultOf (reread toNumber (.obj ms)) =
      (resultOf (.obj ms)).map fun
        | .ok output => .ok (reread toNumber output)
        | .failed reason message => .failed reason message := by
  obtain ⟨ms', hms', hlookup⟩ := lookup_reread toNumber hdistinct
  have htext := textMember_reread hlookup
  have hfailure : failureOf ms' = failureOf ms := by
    unfold failureOf
    simp only [htext]
  have hnumber : isNumberMember ms "durationMs" = true := by
    rw [isNumberMember, hduration]
  rw [hms', resultOf, resultOf, if_pos (isNumberMember_reread hn hlookup hduration),
    if_pos hnumber, hlookup, hlookup, hfailure, htext]
  cases hok : ms.lookup (ofString "ok") with
  | none => rfl
  | some v =>
    cases v with
    | scalar a =>
      cases a with
      | bool b =>
        cases b with
        | true =>
          simp only [Option.map_some, reread, Json.rebuild_scalar, Scalar.reread, Option.map_map]
          rfl
        | false =>
          simp only [Option.map_some, reread, Json.rebuild_scalar, Scalar.reread]
          cases failureOf ms with
          | none => rfl
          | some reason => cases textMember ms "message" <;> rfl
      | num m =>
        by_cases hm : m.isFinite = true
        · simp [reread, Scalar.reread, hm]
        · simp [reread, Scalar.reread, hm]
      | null => rfl
      | str s => rfl
    | arr items => simp [reread]
    | obj entries => simp [reread, Json.rebuild_obj]

theorem isFinite_ofInt (n : Int) : (Num.ofInt n).isFinite = true := by
  unfold Num.ofInt
  split <;> rfl

theorem resultOf_toJson (toNumber : Text → Num) {outcome : JailOutcome} (h : outcome.Parsed) :
    resultOf (reread toNumber outcome.toJson) = some (outcome.result toNumber) := by
  have hdistinct := JailOutcome.distinctKeys_toJson h
  cases outcome with
  | ok output durationMs =>
    exact resultOf_reread (isFinite_ofInt durationMs) hdistinct rfl
  | violation violation message durationMs =>
    cases violation <;> exact resultOf_reread (isFinite_ofInt durationMs) hdistinct rfl
  | limit limit message durationMs =>
    cases limit <;> exact resultOf_reread (isFinite_ofInt durationMs) hdistinct rfl
  | toolError message durationMs =>
    exact resultOf_reread (isFinite_ofInt durationMs) hdistinct rfl

end

section

variable {ρ : Type} [DecidableEq ρ] {capacity : Capacity}

/-- What one request is about. -/
structure ToolCall (ρ : Type) where
  client : ρ
  id : RunId
  tool : Text
  input : Json
  limits : JailLimits

namespace ToolCall

variable (call : ToolCall ρ)

/-- The entrypoint that the tool resolved to. -/
def Resolved (own : List (Entry ρ capacity)) (entrypoint : Text) : Prop :=
  ⟨call.client, .resolveEntrypoint call.tool, some entrypoint⟩ ∈ own

/-- The input was written to the workspace of the run. -/
def Written (own : List (Entry ρ capacity)) : Prop :=
  ⟨call.client, .writeToolInput call.id call.input, some ()⟩ ∈ own

def Started (own : List (Entry ρ capacity)) (entrypoint : Text) : Prop :=
  ⟨call.client, .startJail call.id entrypoint call.limits, some ()⟩ ∈ own

def Ended (own : List (Entry ρ capacity)) (outcome : JailOutcome) : Prop :=
  ⟨call.client, .awaitJail call.id, some outcome⟩ ∈ own

/-- The request ran the tool on its input, and this is what became of the jail. -/
def Delivered (own : List (Entry ρ capacity)) (outcome : JailOutcome) : Prop :=
  call.Written own ∧ call.Ended own outcome ∧
    ∃ entrypoint, call.Resolved own entrypoint ∧ call.Started own entrypoint

/-- The answers that tell of no jail. -/
def IsRefusal (deps : ServerDeps) (a : Answer) : Prop :=
  a = { code := 503, body := .unhealthy deps.assertions } ∨ a = badTool ∨ a = atCapacity ∨
    a = runIdInUse ∨ a = inputWrite

theorem IsRefusal.status {deps : ServerDeps} {a : Answer} (h : IsRefusal deps a) :
    ¬(200 ≤ a.code ∧ a.code ≤ 299) := by
  rcases h with rfl | rfl | rfl | rfl | rfl <;> simp [badTool, atCapacity, runIdInUse, inputWrite]

def Answered (deps : ServerDeps) (own : List (Entry ρ capacity)) (a : Answer) : Prop :=
  IsRefusal deps a ∨ ∃ outcome, a = { code := 200, body := .outcome outcome } ∧
    call.Delivered own outcome

/-- What a phase tells of the request's own events. -/
def Tells (deps : ServerDeps) (own : List (Entry ρ capacity)) : Phase → Prop
  | .arrived id tool => id = call.id ∧ tool = call.tool
  | .entering id entrypoint | .waiting id entrypoint | .holding id entrypoint
  | .writing id entrypoint => id = call.id ∧ call.Resolved own entrypoint
  | .starting id entrypoint => id = call.id ∧ call.Resolved own entrypoint ∧ call.Written own
  | .jailed id =>
      id = call.id ∧ call.Written own ∧
        ∃ entrypoint, call.Resolved own entrypoint ∧ call.Started own entrypoint
  | .inspecting _ result | .unlinking _ result | .locating _ result | .removing _ result
  | .releasing _ result | .finished _ result => ∀ a, result = .ok a → call.Answered deps own a

variable {call} {deps : ServerDeps} {own : List (Entry ρ capacity)}

theorem Delivered.append {outcome : JailOutcome} (h : call.Delivered own outcome)
    (e : Entry ρ capacity) : call.Delivered (own ++ [e]) outcome := by
  obtain ⟨hwritten, hended, entrypoint, hresolved, hstarted⟩ := h
  exact ⟨List.mem_append_left _ hwritten, List.mem_append_left _ hended, entrypoint,
    List.mem_append_left _ hresolved, List.mem_append_left _ hstarted⟩

theorem Answered.append {a : Answer} (h : call.Answered deps own a) (e : Entry ρ capacity) :
    call.Answered deps (own ++ [e]) a := by
  rcases h with hrefusal | ⟨outcome, ha, hdelivered⟩
  · exact .inl hrefusal
  · exact .inr ⟨outcome, ha, hdelivered.append e⟩

theorem answered_append {result : Except Thrown Answer}
    (h : ∀ a, result = .ok a → call.Answered deps own a) (e : Entry ρ capacity) :
    ∀ a, result = .ok a → call.Answered deps (own ++ [e]) a :=
  fun a ha => (h a ha).append e

theorem answered_refusal {a : Answer} (h : IsRefusal deps a) :
    ∀ b, (Except.ok a : Except Thrown Answer) = .ok b → call.Answered deps own b :=
  fun _ hb => .inl (Except.ok.inj hb ▸ h)

theorem answered_thrown {e : Thrown} :
    ∀ b, (Except.error e : Except Thrown Answer) = .ok b → call.Answered deps own b :=
  fun _ hb => nomatch hb

theorem tells_after (hlimits : call.limits.accepted = true) {φ : Phase} {k : Op}
    (h : call.Tells deps own φ) (hop : φ.op call.limits call.input = some k)
    (reply : Option k.Reply) :
    call.Tells deps (own ++ [⟨call.client, k, reply⟩]) (φ.after call.limits k reply) := by
  have hnew : (⟨call.client, k, reply⟩ : Entry ρ capacity) ∈
      own ++ [⟨call.client, k, reply⟩] := List.mem_append_right _ List.mem_cons_self
  have hold {e : Entry ρ capacity} (he : e ∈ own) : e ∈ own ++ [⟨call.client, k, reply⟩] :=
    List.mem_append_left _ he
  cases φ <;> cases hop
  case arrived id tool =>
    obtain ⟨rfl, rfl⟩ := h
    cases reply with
    | none => exact answered_refusal (.inr (.inl rfl))
    | some entrypoint =>
      simp only [Phase.after, hlimits, if_true]
      exact ⟨rfl, hnew⟩
  case entering id entrypoint =>
    obtain ⟨hid, hresolved⟩ := h
    cases reply with
    | none => exact answered_thrown
    | some outcome =>
      cases outcome with
      | acquired => exact ⟨hid, hold hresolved⟩
      | queued => exact ⟨hid, hold hresolved⟩
      | atCapacity => exact answered_refusal (.inr (.inr (.inl rfl)))
  case waiting id entrypoint =>
    obtain ⟨hid, hresolved⟩ := h
    cases reply with
    | none => exact answered_thrown
    | some _ => exact ⟨hid, hold hresolved⟩
  case holding id entrypoint =>
    obtain ⟨hid, hresolved⟩ := h
    cases reply with
    | none => exact answered_thrown
    | some outcome =>
      cases outcome with
      | created => exact ⟨hid, hold hresolved⟩
      | eexist => exact answered_refusal (.inr (.inr (.inr (.inl rfl))))
  case writing id entrypoint =>
    obtain ⟨rfl, hresolved⟩ := h
    cases reply with
    | none => exact answered_refusal (.inr (.inr (.inr (.inr rfl))))
    | some _ => exact ⟨rfl, hold hresolved, hnew⟩
  case starting id entrypoint =>
    obtain ⟨rfl, hresolved, hwritten⟩ := h
    cases reply with
    | none => exact answered_thrown
    | some _ => exact ⟨rfl, hold hwritten, entrypoint, hold hresolved, hnew⟩
  case jailed id =>
    obtain ⟨rfl, hwritten, entrypoint, hresolved, hstarted⟩ := h
    cases reply with
    | none => exact answered_thrown
    | some outcome =>
      intro a ha
      exact .inr ⟨outcome, (Except.ok.inj ha).symm, hold hwritten, hnew, entrypoint,
        hold hresolved, hold hstarted⟩
  case inspecting id result =>
    cases reply with
    | none => exact answered_append h _
    | some kind => cases kind <;> exact answered_append h _
  case unlinking id result => cases reply <;> exact answered_append h _
  case locating id result =>
    cases reply with
    | none => exact answered_append h _
    | some underRoot => cases underRoot <;> exact answered_append h _
  case removing id result => cases reply <;> exact answered_append h _
  case releasing kept result =>
    cases reply with
    | none => exact answered_thrown
    | some _ => exact answered_append h _

end ToolCall

/-- A request with the token, a run id and a tool is refused at once or goes on to its tool. -/
theorem execute_tells (hashToken : Text → String) {deps : ServerDeps} {req : ExecuteRequest}
    {call : ToolCall ρ} (hbearer : req.bearer = some deps.token) (hrunId : req.runId = some call.id.val)
    (hextract : extractRunId (ofString "/" ++ call.id.val) = some call.id.val)
    (htool : req.tool = some call.tool) :
    ∃ φ : Phase, execute hashToken deps req = code req φ ∧
      call.Tells deps ([] : List (Entry ρ capacity)) φ := by
  unfold execute
  rw [hbearer, hrunId, htool]
  simp only [Option.all_some, ne_eq, not_true, decide_false, Bool.false_eq_true, if_false,
    Option.bind_some, hextract]
  cases hcanary : deps.canaryOk with
  | false => exact ⟨.finished false (.ok _), rfl, ToolCall.answered_refusal (.inl rfl)⟩
  | true =>
    by_cases hbare : isBareName call.tool = true
    · refine ⟨.arrived call.id call.tool, ?_, rfl, rfl⟩
      simp only [resolveEntrypoint, if_pos hbare]
      refine congrArg (Prog.call _) (funext fun reply => ?_)
      cases reply with
      | none => rfl
      | some entrypoint =>
        show (if !req.limits.accepted then _ else _) = if !req.limits.accepted then _ else _
        congr 1
    · refine ⟨.finished false (.ok badTool), ?_, ToolCall.answered_refusal (.inr (.inl rfl))⟩
      simp only [resolveEntrypoint, if_neg hbare]
      rfl

/-- The answer to a request says what became of its jail, or tells of none. -/
theorem serve_answered (hashToken : Text → String) {deps : ServerDeps}
    {requests : ρ → ExecuteRequest} (present : Text → Bool) (schedule : List (ρ × Choice))
    (call : ToolCall ρ) (hbearer : (requests call.client).bearer = some deps.token)
    (hrunId : (requests call.client).runId = some call.id.val)
    (hextract : extractRunId (ofString "/" ++ call.id.val) = some call.id.val)
    (htool : (requests call.client).tool = some call.tool)
    (hinput : (requests call.client).input = call.input)
    (hlimits : (requests call.client).limits = call.limits)
    (haccepted : call.limits.accepted = true) {a : Answer}
    (hanswer : (serve hashToken deps requests present schedule).procs call.client = .ret a) :
    call.Answered deps (Machine.ownEvents
      (serve hashToken deps requests present schedule).history call.client) a := by
  have hstarts : ∀ r, ∃ φ : Phase, execute hashToken deps (requests r) = code (requests r) φ ∧
      (r = call.client → call.Tells deps ([] : List (Entry ρ deps.concurrency)) φ) := by
    intro r
    by_cases hr : r = call.client
    · subst hr
      obtain ⟨φ, hcode, htells⟩ := execute_tells hashToken hbearer hrunId hextract htool
      exact ⟨φ, hcode, fun _ => htells⟩
    · obtain ⟨φ, -, hcode⟩ := execute_starts hashToken deps (requests r)
      exact ⟨φ, hcode, fun h => absurd h hr⟩
  choose phases hcode htells using hstarts
  have hstep : ∀ {r φ own k next} (reply : Option (Op.Reply k)),
      (r = call.client → call.Tells deps (own : List (Entry ρ deps.concurrency)) φ) →
      code (requests r) φ = .call k next →
      ∃ φ', next reply = code (requests r) φ' ∧
        (r = call.client → call.Tells deps (own ++ [⟨r, k, reply⟩]) φ') := by
    intro r φ own k next reply hP hcall
    cases hop : φ.op (requests r).limits (requests r).input with
    | none =>
      cases φ with
      | finished acquired result => cases result <;> cases hcall
      | _ => cases hop
    | some k' =>
      have hcalls := code_op (requests r) φ hop
      cases hcalls.symm.trans hcall
      refine ⟨_, rfl, ?_⟩
      rintro rfl
      rw [hlimits, hinput] at hop
      rw [hlimits]
      exact ToolCall.tells_after haccepted (hP rfl) hop reply
  obtain ⟨φ, hprocs, hφ⟩ := Machine.run_own (M := machine ρ deps.concurrency)
    (P := fun r φ own => r = call.client → call.Tells deps own φ) hstep htells (boot present)
    schedule call.client
  have hserve : serve hashToken deps requests present schedule =
      Machine.run (Machine.begin (fun r => code (requests r) (phases r)) (boot present))
        schedule := by
    unfold serve
    congr 2
    exact funext hcode
  rw [hserve] at hanswer ⊢
  have htold := hφ rfl
  rw [hanswer] at hprocs
  -- only the code of the last phase returns
  cases hop : φ.op (requests call.client).limits (requests call.client).input with
  | some k =>
    rw [code_op _ φ hop] at hprocs
    exact absurd hprocs (by simp)
  | none =>
    cases φ with
    | finished acquired result =>
      cases result with
      | ok b =>
        obtain rfl : a = b := Prog.ret.inj hprocs
        exact htold a rfl
      | error e => exact absurd hprocs (by simp [code, Prog.ofExcept])
    | _ => cases hop

end

structure HeaderToken (token : Text) : Prop where
  ne : token ≠ []
  trimmed : trim token = token
  oneLine : ∀ u ∈ token, isLineTerminator u = false

theorem dropWhile_of_trimmed {s : Text} (h : trim s = s) :
    s.dropWhile isWhite = s ∧ s.rdropWhile isWhite = s := by
  have hsuffix : s.dropWhile isWhite <:+ s := List.dropWhile_suffix _
  have hprefix : trim s <+: s.dropWhile isWhite := List.rdropWhile_prefix _ _
  have hlength := hprefix.length_le
  rw [h] at hlength
  have hdrop : s.dropWhile isWhite = s :=
    hsuffix.eq_of_length (le_antisymm hsuffix.length_le hlength)
  rw [trim, hdrop] at h
  exact ⟨hdrop, h⟩

theorem extractBearer_token {token : Text} (h : HeaderToken token) :
    extractBearer (some (ofString "Bearer " ++ token)) = some token := by
  obtain ⟨hdrop, hrdrop⟩ := dropWhile_of_trimmed h.trimmed
  have hscheme : ofString "Bearer " = ofString "Bearer" ++ [32] := by decide
  have htrim : trim (ofString "Bearer " ++ token) = ofString "Bearer" ++ 32 :: token := by
    have hfirst : (ofString "Bearer " ++ token).dropWhile isWhite = ofString "Bearer " ++ token :=
      rfl
    have hlast : ∀ hne : ofString "Bearer " ++ token ≠ [],
        ¬isWhite ((ofString "Bearer " ++ token).getLast hne) = true := by
      intro hne
      rw [List.getLast_append_of_ne_nil _ h.ne]
      exact List.rdropWhile_eq_self_iff.mp hrdrop h.ne
    rw [trim, hfirst, List.rdropWhile_eq_self_iff.mpr hlast, hscheme, List.append_assoc]
    rfl
  have hmatches : matchesHere "bearer" (ofString "Bearer" ++ 32 :: token) = true := by
    rw [matchesHere, List.map_append, List.isPrefixOf_iff_prefix]
    exact List.prefix_append _ _
  have hrest : (ofString "Bearer" ++ 32 :: token).drop 6 = 32 :: token := by
    rfl
  have hcredentials : (32 :: token).dropWhile isWhite = token := by
    rw [List.dropWhile_cons_of_pos (by decide), hdrop]
  have hline : (token.all fun u => !isLineTerminator u) = true := by
    rw [List.all_eq_true]
    intro u hu
    rw [h.oneLine u hu]
    rfl
  have hwhite : isWhite 32 = true := by decide
  unfold extractBearer
  simp only [Option.getD_some, htrim, hmatches, hrest, hcredentials, hline, List.head?_cons,
    Option.any_some, hwhite, h.ne, h.trimmed, ne_eq, not_false_eq_true, decide_true, Bool.and_self,
    if_true, if_false]

/-- The limits that a tool has, as the client sends them. -/
def JailLimits.toJson (limits : JailLimits) : Json :=
  .obj [(ofString "wallClockMs", .scalar (limits.wallClockMs.elim .null .num)),
    (ofString "memoryBytes", .scalar (limits.memoryBytes.elim .null .num)),
    (ofString "maxOutputBytes", .scalar (limits.maxOutputBytes.elim .null .num))]

theorem JailLimits.distinctKeys_toJson (limits : JailLimits) :
    limits.toJson.distinctKeys = true := by
  rw [JailLimits.toJson, Json.distinctKeys_obj]
  constructor
  · simp only [keysOf, List.map_cons, List.map_nil]
    decide +kernel
  · simp

/-- The input as the supervisor writes it for the tool. -/
def deliveredInput (toNumber : Text → Num) (input : Json) : Json :=
  match reread toNumber input with
  | .scalar .null => .obj []
  | v => v

section

variable (toNumber : Text → Num) (textNumber : Text → Option Num) (toText : Json → Text)

/-- The request of the handler, when the body is an object.  A body with a key `__proto__` is
refused by the server before the handler sees it. -/
def receive (request : FetchRequest) : Option ExecuteRequest :=
  match parse toNumber request.body with
  | some (.obj body) =>
      some (readExecuteRequest textNumber toText (some request.authorization) body)
  | _ => none

variable {toNumber textNumber toText}

theorem finite_of_positive {n : Option Num} (h : isPositiveFiniteLimit n = true) :
    ∃ m, n = some m ∧ m.isFinite = true ∧ m.unsigned = m := by
  unfold isPositiveFiniteLimit at h
  split at h
  · exact ⟨_, rfl, rfl, rfl⟩
  · exact absurd h (by simp)

theorem limitOf_reread (hread : ∀ n : Num, n.isFinite = true → toNumber n.print = n.unsigned)
    {ms ms' : List (Text × Json)} {key : String} {n : Option Num}
    (hlookup : ∀ k, ms'.lookup k = (ms.lookup k).map (reread toNumber))
    (hkey : ms.lookup (ofString key) = some (.scalar (n.elim .null .num)))
    (hn : isPositiveFiniteLimit n = true) :
    limitOf textNumber toText (some (.obj ms')) key = n := by
  obtain ⟨m, rfl, hfinite, hunsigned⟩ := finite_of_positive hn
  have hvalue : property (some (.obj ms')) key = some (some (.scalar (.num m))) := by
    rw [property, hlookup, hkey]
    simp [reread, Scalar.reread, hfinite, hread m hfinite, hunsigned]
  rw [limitOf, Option.bind_some, hvalue]
  rfl

theorem receive_request (hread : ∀ n : Num, n.isFinite = true → toNumber n.print = n.unsigned)
    {opts : CreateSidecarSandboxOptions} {input : SandboxExecuteInput} {runId : Text}
    {limits : JailLimits} (htoken : HeaderToken opts.token)
    (hdistinct : input.input.distinctKeys = true) (hlimits : input.limits = limits.toJson)
    (haccepted : limits.accepted = true) :
    receive toNumber textNumber toText (opts.request input runId) =
      some { bearer := some opts.token, runId := some runId, tool := some input.entrypoint
             input := deliveredInput toNumber input.input, limits } := by
  have hmembers : (Json.obj [(ofString "runId", .scalar (.str runId)),
      (ofString "tool", .scalar (.str input.entrypoint)), (ofString "input", input.input),
      (ofString "limits", input.limits)]).distinctKeys = true := by
    rw [Json.distinctKeys_obj]
    constructor
    · simp only [keysOf, List.map_cons, List.map_nil]
      decide +kernel
    · simp [hdistinct, hlimits, limits.distinctKeys_toJson]
  obtain ⟨body, hbody, hlookup⟩ := lookup_reread toNumber hmembers
  have hparse : parse toNumber (opts.request input runId).body = some (.obj body) := by
    rw [CreateSidecarSandboxOptions.request, parse_stringifyText_reread hmembers]
    exact congrArg some hbody
  have hinput : body.lookup (ofString "input") = some (reread toNumber input.input) :=
    hlookup (ofString "input")
  have hlimitsRead : body.lookup (ofString "limits") = some (reread toNumber limits.toJson) := by
    rw [← hlimits]
    exact hlookup (ofString "limits")
  rw [JailLimits.accepted, Bool.and_eq_true, Bool.and_eq_true] at haccepted
  obtain ⟨⟨hwall, hmemory⟩, houtput⟩ := haccepted
  obtain ⟨ms', hms', hlimit⟩ := lookup_reread toNumber limits.distinctKeys_toJson
  have hbearer : extractBearer (some (opts.request input runId).authorization) =
      some opts.token := extractBearer_token htoken
  have hrun : textMember body "runId" = some runId :=
    textMember_eq_some_iff.mpr (hlookup (ofString "runId"))
  have htool : textMember body "tool" = some input.entrypoint :=
    textMember_eq_some_iff.mpr (hlookup (ofString "tool"))
  have hlimitsJson : body.lookup (ofString "limits") = some (.obj ms') := by
    rw [hlimitsRead]
    exact congrArg some hms'
  rw [receive, hparse]
  dsimp only
  rw [readExecuteRequest, hbearer, hrun, htool, hinput, hlimitsJson]
  dsimp only
  rw [limitOf_reread hread hlimit rfl hwall, limitOf_reread hread hlimit rfl hmemory,
    limitOf_reread hread hlimit rfl houtput, deliveredInput]
  cases reread toNumber input.input with
  | scalar a => cases a <;> rfl
  | arr items => rfl
  | obj ms => rfl

end

namespace CreateSidecarSandboxOptions

theorem answer_of_status (durationMs : Int) {status : Nat} (h : ¬(200 ≤ status ∧ status ≤ 299))
    (body : Except Text Json) :
    answer durationMs (.response status body) =
      .ok (sidecarError (ofString ("sidecar returned HTTP " ++ toString status)) durationMs) := by
  simp only [answer, h, not_false_eq_true, if_true]

theorem answer_of_ok (durationMs : Int) {body : Json} {b : Bool}
    (h : property (some body) "ok" = some (some (.scalar (.bool b)))) :
    answer durationMs (.response 200 (.ok body)) = .ok body := by
  simp only [answer, h]
  rfl

end CreateSidecarSandboxOptions

/-- A complete result says whether it is `ok`. -/
theorem property_ok_of_resultOf {v : Json} {result : Runtime.SandboxResult}
    (h : resultOf v = some result) :
    ∃ b, property (some v) "ok" = some (some (.scalar (.bool b))) := by
  unfold resultOf at h
  split at h
  · rename_i ms
    split at h
    · split at h
      · rename_i hok
        exact ⟨true, congrArg some hok⟩
      · rename_i hok
        exact ⟨false, congrArg some hok⟩
      · exact absurd h (by simp)
    · exact absurd h (by simp)
  · exact absurd h (by simp)

theorem extractRunId_of_valid {runId : Text} (h : isValidRunId runId = true) :
    extractRunId (ofString "/" ++ runId) = some runId := by
  have hne : runId ≠ [] := by
    rintro rfl
    exact absurd h (by decide)
  rw [extractRunId_slash, lastSegment_of_notMem (slash_notMem_runId h) hne]
  exact Option.filter_eq_some_iff.mpr ⟨rfl, h⟩

/-- A call goes through the client, over the wire and through the supervisor among any other
requests, and its answer goes back: the client resolves to a complete result, and this is what became
of a jail that ran the tool of the call on its input, under its run id and its limits, or an error
with the status of a refusal or of an exception in the supervisor. -/
theorem call_through_the_sidecar {ρ : Type} [DecidableEq ρ] (toNumber : Text → Num)
    (hread : ∀ n : Num, n.isFinite = true → toNumber n.print = n.unsigned)
    (textNumber : Text → Option Num) (toText : Json → Text) (hashToken : Text → String)
    (deps : ServerDeps) (requests : ρ → ExecuteRequest) (present : Text → Bool)
    (schedule : List (ρ × Choice))
    (houtcomes : ∀ s ∈ schedule, ∃ limits events,
      (runJail toNumber limits events).outcome = some s.2.outcome)
    (opts : CreateSidecarSandboxOptions) (htoken : HeaderToken opts.token)
    (hshared : opts.token = deps.token) (input : SandboxExecuteInput) (runId : RunId)
    (hrunId : extractRunId input.workspaceDir = some runId.val)
    (hdistinct : input.input.distinctKeys = true) (limits : JailLimits)
    (hlimits : input.limits = limits.toJson) (haccepted : limits.accepted = true) (client : ρ)
    (hrequest : receive toNumber textNumber toText (opts.request input runId.val) =
      some (requests client)) (syntaxError : Text) (errorBody : Except Text Json)
    (hfetch : respondHandler toNumber syntaxError errorBody
        ((serve hashToken deps requests present schedule).procs client) =
      some (opts.fetchImpl (opts.request input runId.val))) (durationMs : Int) :
    ∃ v result, opts.execute input durationMs = .ok v ∧ resultOf v = some result ∧
      ((∃ a, (serve hashToken deps requests present schedule).procs client = .ret a ∧
          ToolCall.IsRefusal deps a ∧ result = .failed .tool_error
            (ofString "createSidecarSandbox: " ++
              ofString ("sidecar returned HTTP " ++ toString a.code))) ∨
        (∃ e, (serve hashToken deps requests present schedule).procs client = .throw e ∧
          result = .failed .tool_error
            (ofString "createSidecarSandbox: " ++ ofString "sidecar returned HTTP 500")) ∨
        ∃ outcome, result = outcome.result toNumber ∧
          ToolCall.Delivered
            { client, id := runId, tool := input.entrypoint
              input := deliveredInput toNumber input.input, limits }
            (Machine.ownEvents (serve hashToken deps requests present schedule).history client)
            outcome) := by
  have hreq := Option.some.inj
    (hrequest.symm.trans (receive_request hread htoken hdistinct hlimits haccepted))
  let call : ToolCall ρ :=
    { client, id := runId, tool := input.entrypoint
      input := deliveredInput toNumber input.input, limits }
  have hexecute : opts.execute input durationMs = CreateSidecarSandboxOptions.answer durationMs
      (opts.fetchImpl (opts.request input runId.val)) := by
    rw [CreateSidecarSandboxOptions.execute, hrunId]
  rw [hexecute]
  cases hended : (serve hashToken deps requests present schedule).procs client with
  | call k next =>
    rw [hended] at hfetch
    exact absurd hfetch (by simp [respondHandler])
  | throw e =>
    rw [hended] at hfetch
    rw [← Option.some.inj hfetch, CreateSidecarSandboxOptions.answer_of_status _ (by decide)]
    exact ⟨_, _, rfl, resultOf_sidecarError _ durationMs, .inr (.inl ⟨e, rfl, rfl⟩)⟩
  | ret a =>
    rw [hended] at hfetch
    rw [← Option.some.inj hfetch]
    have hanswered := serve_answered hashToken present schedule call
      (by rw [hreq, hshared]) (by rw [hreq]) (extractRunId_of_valid runId.property) (by rw [hreq])
      (by rw [hreq]) (by rw [hreq]) haccepted hended
    rcases hanswered with hrefusal | ⟨outcome, rfl, hdelivered⟩
    · refine ⟨_, _, ?_, resultOf_sidecarError _ durationMs, .inl ⟨a, rfl, hrefusal, rfl⟩⟩
      exact CreateSidecarSandboxOptions.answer_of_status durationMs hrefusal.status _
    · have hparsed : outcome.Parsed := by
        obtain ⟨-, hended, -⟩ := hdelivered
        have hmem := List.mem_of_mem_filter hended
        rcases Machine.exec_of_mem_history hmem with hnone | ⟨s, hs, state, state', hexec⟩
        · exact absurd hnone List.not_mem_nil
        · obtain ⟨limits', events, houtcome⟩ := houtcomes s hs
          have hchoice : s.2.outcome = outcome := by
            simp only [exec, Option.some.injEq, Prod.mk.injEq] at hexec
            obtain ⟨hreply, -⟩ := hexec
            split at hreply
            · exact absurd hreply (by simp)
            · exact Option.some.inj hreply
          exact parsed_of_runJail (hchoice ▸ houtcome)
      have hparse : parse toNumber (stringifyText outcome.toJson) =
          some (reread toNumber outcome.toJson) :=
        parse_stringifyText_reread (JailOutcome.distinctKeys_toJson hparsed)
      refine ⟨reread toNumber outcome.toJson, _, ?_, resultOf_toJson toNumber hparsed,
        .inr (.inr ⟨outcome, rfl, hdelivered⟩)⟩
      obtain ⟨b, hb⟩ := property_ok_of_resultOf (resultOf_toJson toNumber hparsed)
      rw [respond, ReplyBody.toJson, hparse]
      exact CreateSidecarSandboxOptions.answer_of_ok durationMs hb

/-! A tool that prints nothing. -/

private def quietRun : RunId := ⟨ofString "6f1f64c2-2f6e-4b0e-9a51-0d3a1f2b7c11", by decide⟩

private def quietLimits : JailLimits :=
  ⟨some (.ofInt 30000), some (.ofInt 268435456), some (.ofInt 1048576)⟩

private def quietAnswer : Answer := { code := 200, body := .outcome (.ok (.scalar .null) 5) }

private def quietClient : CreateSidecarSandboxOptions where
  baseUrl := ofString "http://sandbox:8443"
  token := ofString "token"
  fetchImpl _ := respond exactNumber [] quietAnswer

private def quietInput : SandboxExecuteInput where
  entrypoint := ofString "e"
  input := .obj []
  workspaceDir := ofString "/workspaces/6f1f64c2-2f6e-4b0e-9a51-0d3a1f2b7c11"
  limits := quietLimits.toJson

private def quietRequest : ExecuteRequest where
  bearer := some (ofString "token")
  runId := some quietRun.val
  tool := some (ofString "e")
  input := deliveredInput exactNumber (.obj [])
  limits := quietLimits

private def quietSchedule : List (Unit × Choice) :=
  List.replicate 10 ((), { fails := false, kind := .other, underRoot := true, path := ofString "/t/e"
                           outcome := .ok (.scalar .null) 5 })

theorem quiet_answered :
    (serve (fun _ => "") healthy (fun _ : Unit => quietRequest) (fun _ => false)
      quietSchedule).procs () = .ret quietAnswer := by
  rfl

theorem call_through_the_sidecar_quiet :
    ∃ v result, quietClient.execute quietInput 7 = .ok v ∧ resultOf v = some result ∧
      ((∃ a, (serve (fun _ => "") healthy (fun _ : Unit => quietRequest) (fun _ => false)
            quietSchedule).procs () = .ret a ∧
          ToolCall.IsRefusal healthy a ∧ result = .failed .tool_error
            (ofString "createSidecarSandbox: " ++
              ofString ("sidecar returned HTTP " ++ toString a.code))) ∨
        (∃ e, (serve (fun _ => "") healthy (fun _ : Unit => quietRequest) (fun _ => false)
            quietSchedule).procs () = .throw e ∧
          result = .failed .tool_error
            (ofString "createSidecarSandbox: " ++ ofString "sidecar returned HTTP 500")) ∨
        ∃ outcome, result = outcome.result exactNumber ∧
          ToolCall.Delivered
            { client := (), id := quietRun, tool := quietInput.entrypoint
              input := deliveredInput exactNumber quietInput.input, limits := quietLimits }
            (Machine.ownEvents (serve (fun _ => "") healthy (fun _ : Unit => quietRequest)
              (fun _ => false) quietSchedule).history ())
            outcome) := by
  have hletters : (ofString "token").all (fun u => isLineTerminator u = false) = true := by decide
  have hlines : ∀ u ∈ ofString "token", isLineTerminator u = false := fun u hu =>
    of_decide_eq_true (List.all_eq_true.mp hletters u hu)
  have htoken : HeaderToken (ofString "token") := ⟨by decide, by decide, hlines⟩
  have houtcomes : ∀ s ∈ quietSchedule, ∃ limits events,
      (runJail exactNumber limits events).outcome = some s.2.outcome := by
    intro s hs
    rw [List.eq_of_mem_replicate hs]
    exact ⟨quietLimits, [.exit (some 0) none 5], rfl⟩
  exact call_through_the_sidecar exactNumber (fun _ h => exactNumber_print h) (fun _ => none)
    (fun _ => []) (fun _ => "") healthy (fun _ => quietRequest) (fun _ => false) quietSchedule
    houtcomes quietClient htoken rfl quietInput quietRun (by decide) (by decide) quietLimits rfl
    (by decide) ()
    (receive_request (fun _ h => exactNumber_print h) htoken (by decide) rfl (by decide))
    [] (.ok (.scalar .null)) (by rw [quiet_answered]; rfl) 7

end OpenRupiv.Sandbox
