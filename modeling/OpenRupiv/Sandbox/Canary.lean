import OpenRupiv.Js.Access
import OpenRupiv.Js.Reread
import OpenRupiv.Sandbox.Jail
import OpenRupiv.Sandbox.Slots

/-!
# The boot canary

`packages/sandbox/src/canary.ts`, the jail that `packages/sandbox/bin/serve.mjs` runs for it, and
what the server makes of its result.
-/

namespace OpenRupiv.Sandbox

open Js Lib

structure CanaryAssertion where
  name : String
  ok : Bool
  detail : Option Text

structure CanaryResult where
  ok : Bool
  assertions : List CanaryAssertion
  «at» : Text

def EXPECTED_ASSERTION_NAMES : List String :=
  ["no_network_interface", "toolchain_ro", "host_path_absent", "rlimits_applied",
    "af_inet_socket_killed_by_sigsys", "no_new_privs", "nested_userns_killed",
    "clone3_returns_enosys", "sensitive_proc_masked"]

structure RunAssertionJailResult where
  stdout : Text
  exitCode : Option Int
  signal : Option Text

/-- A single assertion about the jail itself, which failed. -/
def jailFailed (now detail : Text) : CanaryResult where
  ok := false
  assertions := [{ name := "canary_jail_execution", ok := false, detail := some detail }]
  «at» := now

/-- `value === true`. -/
def isTrue : Option Json → Bool
  | some (.scalar (.bool true)) => true
  | _ => false

def assertionOf (report : Json) (name : String) : CanaryAssertion :=
  let value := ((property (some report) name).getD none)
  { name
    ok := isTrue value
    detail :=
      if isTrue value then none
      else some (ofString "expected true, got " ++
        value.elim (ofString "undefined") stringifyText) }

def isObject : Json → Bool
  | .scalar _ => false
  | _ => true

section

variable (toNumber : Text → Num) (now : Text)

def runBootCanary (jailResult : RunAssertionJailResult) : CanaryResult :=
  if jailResult.exitCode ≠ some 0 then
    jailFailed now (ofString "canary jail did not exit cleanly: exit code " ++
      jailResult.exitCode.elim (ofString "null") (fun code => (Num.ofInt code).print) ++
      ofString ", signal " ++ jailResult.signal.getD (ofString "none"))
  else
    match parse toNumber jailResult.stdout with
    | none => jailFailed now (ofString "canary jail stdout was not valid JSON")
    | some report =>
        if isObject report then
          let assertions := EXPECTED_ASSERTION_NAMES.map (assertionOf report)
          { ok := assertions.all CanaryAssertion.ok, assertions, «at» := now }
        else jailFailed now (ofString "canary jail stdout was not a JSON object")

/-- The number 65536. -/
def canaryOutputBytes : Decimal := ⟨false, [6, 5, 5, 3, 6], 5, by decide⟩

def canaryLimits : JailLimits where
  wallClockMs := some (.ofInt 10000)
  memoryBytes := some (.ofInt 268435456)
  maxOutputBytes := some (.finite canaryOutputBytes)

/-- `runAssertionJail` of `serve.mjs`, once the jail has an outcome. -/
def runAssertionJail : JailOutcome → RunAssertionJailResult
  | .ok output _ => { stdout := stringifyText output, exitCode := some 0, signal := none }
  | _ => { stdout := [], exitCode := some 1, signal := none }

end

def CanaryAssertion.toJson (a : CanaryAssertion) : Json :=
  .obj ([(ofString "name", .scalar (.str (ofString a.name))),
    (ofString "ok", .scalar (.bool a.ok))] ++
    a.detail.toList.map fun detail => (ofString "detail", .scalar (.str detail)))

def CanaryResult.assertionsJson (result : CanaryResult) : Json :=
  .arr (result.assertions.map CanaryAssertion.toJson)

/-- The status and the body of `GET /healthz`. -/
def healthz (result : CanaryResult) : Nat × Json :=
  (if result.ok then 200 else 503,
    .obj [(ofString "ok", .scalar (.bool result.ok)),
      (ofString "assertions", result.assertionsJson),
      (ofString "at", .scalar (.str result.at))])

/-- What `main` hands to `createServer`. -/
def bootDeps (token : Text) (concurrency : Capacity) (result : CanaryResult) : ServerDeps where
  token
  canaryOk := result.ok
  assertions := result.assertionsJson
  concurrency

/-- The canary jail exited cleanly and in time, and what had come of its output before the exit is an
object that maps each of the names to `true`. -/
def ProvesIsolation (toNumber : Text → Num) (events : List JailEvent) : Prop :=
  ∃ before after signal durationMs ms,
    events = before ++ .exit (some 0) signal durationMs :: after ∧
    (∀ e ∈ before, e.settles = false ∧ e.isTimer = false) ∧ signal ≠ some "SIGSYS" ∧
    (written before).length < 65536 ∧
    parse toNumber (trim (fromUtf8 (written before))) = some (.obj ms) ∧
    ∀ name ∈ EXPECTED_ASSERTION_NAMES, ms.lookup (ofString name) = some (.scalar (.bool true))

theorem isTrue_iff {value : Option Json} :
    isTrue value = true ↔ value = some (.scalar (.bool true)) := by
  unfold isTrue
  split
  · simp
  · rename_i hvalue
    simpa using hvalue

theorem ok_of_jailFailed (now detail : Text) : (jailFailed now detail).ok = false := rfl

section

variable {toNumber : Text → Num} {now : Text}

theorem runBootCanary_ok_iff {jailResult : RunAssertionJailResult} :
    (runBootCanary toNumber now jailResult).ok = true ↔
      jailResult.exitCode = some 0 ∧ ∃ ms, parse toNumber jailResult.stdout = some (.obj ms) ∧
        ∀ name ∈ EXPECTED_ASSERTION_NAMES,
          ms.lookup (ofString name) = some (.scalar (.bool true)) := by
  unfold runBootCanary
  split
  · rename_i hcode
    simp [ok_of_jailFailed, hcode]
  rename_i hcode
  rw [not_not] at hcode
  cases hparse : parse toNumber jailResult.stdout with
  | none => simp [ok_of_jailFailed]
  | some report =>
    cases report with
    | scalar a => simp [isObject, ok_of_jailFailed]
    | arr items => simp [isObject, EXPECTED_ASSERTION_NAMES, assertionOf, property, isTrue]
    | obj ms =>
      simp only [isObject, if_true, List.all_map, List.all_eq_true, Function.comp_apply,
        assertionOf, property, Option.getD_some, isTrue_iff, hcode, true_and]
      simp

theorem maxBytes_canaryLimits : canaryLimits.maxBytes = (65536 : Nat) := by
  norm_num [JailLimits.maxBytes, canaryLimits, magnitude, canaryOutputBytes, digitsValue]

theorem parseOutput_eq_obj_iff {bytes : List UInt8} {ms : List (Text × Json)} :
    parseOutput toNumber bytes = .obj ms ↔
      parse toNumber (trim (fromUtf8 bytes)) = some (.obj ms) := by
  unfold parseOutput
  dsimp only
  split
  · rename_i hempty
    rw [hempty]
    simp [parse, readValue, skip]
  · cases parse toNumber (trim (fromUtf8 bytes)) with
    | none => simp
    | some v => simp

theorem distinctKeys_parseOutput (toNumber : Text → Num) (bytes : List UInt8) :
    (parseOutput toNumber bytes).distinctKeys = true := by
  unfold parseOutput
  dsimp only
  split
  · exact Json.distinctKeys_scalar _
  · cases hparse : parse toNumber (trim (fromUtf8 bytes)) with
    | none => exact Json.distinctKeys_scalar _
    | some v => exact distinctKeys_parse hparse

/-- The canary jail proves the isolation when it resolves well to such an object. -/
theorem provesIsolation_iff {events : List JailEvent} :
    ProvesIsolation toNumber events ↔
      ∃ ms durationMs, (runJail toNumber canaryLimits events).outcome =
          some (.ok (.obj ms) durationMs) ∧
        ∀ name ∈ EXPECTED_ASSERTION_NAMES,
          ms.lookup (ofString name) = some (.scalar (.bool true)) := by
  have haccepted : canaryLimits.accepted = true := by decide
  have hbelow (n : Nat) : ¬(Whole canaryLimits.maxBytes ∧ canaryLimits.maxBytes ≤ n) ↔
      n < 65536 := by
    rw [maxBytes_canaryLimits, Nat.cast_le, Whole, Nat.floor_natCast]
    simp
  have hfit (bytes : List UInt8) (h : bytes.length < 65536) :
      bytes.take ⌊canaryLimits.maxBytes⌋₊ = bytes := by
    rw [maxBytes_canaryLimits, Nat.floor_natCast]
    exact List.take_of_length_le h.le
  constructor
  · rintro ⟨before, after, signal, durationMs, ms, rfl, hdata, hsignal, hlength, hparse, hnames⟩
    refine ⟨ms, durationMs, (outcome_eq_ok_iff haccepted).mpr ?_, hnames⟩
    refine ⟨before, after, signal, rfl, fun e he => (hdata e he).1, fun e he => (hdata e he).2,
      hsignal, (hbelow _).mpr hlength, ?_⟩
    rw [hfit _ hlength]
    exact (parseOutput_eq_obj_iff.mpr hparse).symm
  · rintro ⟨ms, durationMs, houtcome, hnames⟩
    obtain ⟨before, after, signal, rfl, hopen, htime, hsignal, hlimit, houtput⟩ :=
      (outcome_eq_ok_iff haccepted).mp houtcome
    have hlength := (hbelow _).mp hlimit
    rw [hfit _ hlength] at houtput
    exact ⟨before, after, signal, durationMs, ms, rfl, fun e he => ⟨hopen e he, htime e he⟩,
      hsignal, hlength, parseOutput_eq_obj_iff.mp houtput.symm, hnames⟩

theorem reread_eq_true_iff {v : Option Json} :
    v.map (reread toNumber) = some (.scalar (.bool true)) ↔ v = some (.scalar (.bool true)) := by
  cases v with
  | none => simp
  | some v =>
    cases v with
    | scalar a =>
      cases a with
      | num n =>
        simp only [reread, Json.rebuild_scalar, Scalar.reread, Option.map_some]
        split <;> simp
      | null => simp [reread, Scalar.reread]
      | bool b => simp [reread, Scalar.reread]
      | str s => simp [reread, Scalar.reread]
    | arr items => simp [reread]
    | obj ms => simp [reread, Json.rebuild_obj]

theorem canary_ok_iff (now : Text) {events : List JailEvent} {outcome : JailOutcome}
    (houtcome : (runJail toNumber canaryLimits events).outcome = some outcome) :
    (runBootCanary toNumber now (runAssertionJail outcome)).ok = true ↔
      ProvesIsolation toNumber events := by
  rw [runBootCanary_ok_iff, provesIsolation_iff, houtcome]
  cases outcome with
  | ok output durationMs =>
    have hdistinct : output.distinctKeys = true := by
      obtain ⟨before, after, signal, -, -, -, -, -, rfl⟩ :=
        (outcome_eq_ok_iff (by decide)).mp houtcome
      exact distinctKeys_parseOutput _ _
    have hparse : parse toNumber (stringifyText output) = some (reread toNumber output) :=
      parse_stringifyText_reread hdistinct
    simp only [runAssertionJail, hparse, true_and, Option.some.injEq, JailOutcome.ok.injEq]
    cases output with
    | scalar a => simp [reread]
    | arr items => simp [reread]
    | obj ms =>
      obtain ⟨ms', hms', hlookup⟩ := lookup_reread toNumber hdistinct
      simp only [hms', hlookup, reread_eq_true_iff, Json.obj.injEq, exists_eq_left', and_assoc]
      simp
  | violation violation message durationMs => simp [runAssertionJail]
  | limit limit message durationMs => simp [runAssertionJail]
  | toolError message durationMs => simp [runAssertionJail]

end

theorem execute_of_unhealthy (hashToken : Text → String) {deps : ServerDeps}
    (h : deps.canaryOk = false) (req : ExecuteRequest) :
    ∃ a, execute hashToken deps req = .ret a ∧ (a.code = 401 ∨ a.code = 503) := by
  unfold execute
  split
  · exact ⟨_, rfl, .inl rfl⟩
  · rw [h]
    exact ⟨_, rfl, .inr rfl⟩

/-- The server is healthy exactly when its canary jail exited cleanly, in time and below its limit,
and what had come of its output maps all nine assertions to `true`; else no request that reaches the
handler, in whatever order they come, makes it do anything: there is no jail, no workspace and no
slot, and every answer of the handler is 401 or 503. -/
theorem canary_gates_every_jail {ρ : Type} [DecidableEq ρ] (toNumber : Text → Num)
    (hashToken : Text → String) (token now : Text) (concurrency : Capacity)
    (events : List JailEvent) (outcome : JailOutcome)
    (houtcome : (runJail toNumber canaryLimits events).outcome = some outcome)
    (requests : ρ → ExecuteRequest) (present : Text → Bool) (schedule : List (ρ × Choice)) :
    let result := runBootCanary toNumber now (runAssertionJail outcome)
    let w := serve hashToken (bootDeps token concurrency result) requests present schedule
    ((healthz result).1 = 200 ↔ ProvesIsolation toNumber events) ∧
      (¬ProvesIsolation toNumber events →
        w.history = [] ∧ w.state = boot present ∧
          ∀ r, answeredWith 401 (w.procs r) ∨ answeredWith 503 (w.procs r)) := by
  dsimp only
  have hok := canary_ok_iff now houtcome
  constructor
  · rw [← hok, healthz]
    cases (runBootCanary toNumber now (runAssertionJail outcome)).ok <;> simp
  · intro hnot
    have hunhealthy : (bootDeps token concurrency
        (runBootCanary toNumber now (runAssertionJail outcome))).canaryOk = false :=
      Bool.eq_false_iff.mpr fun h => hnot (hok.mp h)
    generalize bootDeps token concurrency
      (runBootCanary toNumber now (runAssertionJail outcome)) = deps at hunhealthy ⊢
    have hstill : serve hashToken deps requests present schedule =
        Machine.begin (fun r => execute hashToken deps (requests r)) (boot present) := by
      refine Machine.run_of_all_ended (M := machine ρ deps.concurrency) ?_ schedule
      intro r k next hcall
      obtain ⟨a, ha, -⟩ := execute_of_unhealthy hashToken hunhealthy (requests r)
      exact absurd (ha.symm.trans hcall) (by simp)
    rw [hstill]
    refine ⟨rfl, rfl, fun r => ?_⟩
    obtain ⟨a, ha, hcode | hcode⟩ := execute_of_unhealthy hashToken hunhealthy (requests r)
    · exact .inl ⟨a, ha, hcode⟩
    · exact .inr ⟨a, ha, hcode⟩

/-! A canary that finds everything as it should be. -/

private def soundReport : Json :=
  .obj (EXPECTED_ASSERTION_NAMES.map fun name => (ofString name, .scalar (.bool true)))

private def soundOutput : List UInt8 := toUtf8 (stringifyText soundReport)

private theorem length_toUtf8_le (t : Text) : (toUtf8 t).length ≤ 4 * t.length := by
  have hone : ∀ c, (utf8 c).length ≤ 4 := by
    intro c
    unfold utf8
    split_ifs <;> simp
  induction t using toUtf8.induct with
  | case1 => simp [toUtf8]
  | case2 u => exact hone _
  | case3 u v rest hu hv ih =>
    rw [toUtf8, if_pos hu, if_pos hv, List.length_append, List.length_cons, List.length_cons]
    have := hone (pairCode u v)
    omega
  | case4 u v rest hu hv ih =>
    rw [toUtf8, if_pos hu, if_neg hv, List.length_append, List.length_cons]
    have := hone 0xFFFD
    omega
  | case5 u v rest hu hl ih =>
    rw [toUtf8, if_neg hu, if_pos hl, List.length_append, List.length_cons]
    have := hone 0xFFFD
    omega
  | case6 u v rest hu hl ih =>
    rw [toUtf8, if_neg hu, if_neg hl, List.length_append, List.length_cons]
    have := hone u.toNat
    omega

private theorem length_units_le (cs : List Char) :
    (cs.flatMap utf16).length ≤ 2 * cs.length := by
  induction cs with
  | nil => simp
  | cons c cs ih =>
    have hone : (utf16 c).length ≤ 2 := by
      unfold utf16
      split <;> simp
    rw [List.flatMap_cons, List.length_append, List.length_cons]
    omega

private theorem length_soundOutput : soundOutput.length < 65536 := by
  have hchars : (stringify soundReport).length = 241 := by decide +kernel
  have hunits : (stringifyText soundReport).length ≤ 2 * 241 := by
    rw [stringifyText_eq, ← hchars]
    exact length_units_le _
  have hbytes := length_toUtf8_le (stringifyText soundReport)
  exact lt_of_le_of_lt hbytes (by omega)

private theorem parseOutput_soundOutput :
    parseOutput (fun _ => .zero false) soundOutput = soundReport := by
  have hdecode : fromUtf8 soundOutput = stringifyText soundReport :=
    fromUtf8_toUtf8_of_wellFormed (wellFormed_ofString _)
  have htrim : trim (stringifyText soundReport) = stringifyText soundReport := by
    have hopening : isWhite (unit '{') = false := by decide
    have hclosing : isWhite (unit '}') = false := by decide
    rw [soundReport, stringifyText_obj, trim, List.dropWhile_cons, hopening, ← List.cons_append,
      if_neg Bool.false_ne_true, List.rdropWhile_concat_neg]
    simp [hclosing]
  have hdistinct : soundReport.distinctKeys = true := by decide +kernel
  have hparse : parse (fun _ => .zero false) (stringifyText soundReport) = some soundReport := by
    rw [parse_stringifyText_reread hdistinct]
    rfl
  refine parseOutput_eq_obj_iff.mpr ?_
  rw [hdecode, htrim]
  exact hparse

theorem canary_gates_every_jail_sound :
    let result := runBootCanary (fun _ => .zero false) [] (runAssertionJail (.ok soundReport 5))
    let w := serve (fun _ => "") (bootDeps (ofString "t") ⟨4, 8, by decide⟩ result)
      (fun _ : Unit => ⟨none, none, none, .obj [], canaryLimits⟩) (fun _ => false) []
    ((healthz result).1 = 200 ↔
        ProvesIsolation (fun _ => .zero false) [.stdout soundOutput, .exit (some 0) none 5]) ∧
      (¬ProvesIsolation (fun _ => .zero false) [.stdout soundOutput, .exit (some 0) none 5] →
        w.history = [] ∧ w.state = boot (fun _ => false) ∧
          ∀ r, answeredWith 401 (w.procs r) ∨ answeredWith 503 (w.procs r)) := by
  have hwritten : written [.stdout soundOutput] = soundOutput := by simp [written]
  have hopen : ∀ e ∈ [JailEvent.stdout soundOutput], e.settles = false ∧ e.isTimer = false := by
    intro e he
    rw [List.mem_singleton.mp he]
    exact ⟨rfl, rfl⟩
  have hoccurs : (runJail (fun _ => .zero false) canaryLimits
      [.stdout soundOutput, .exit (some 0) none 5]).outcome = some (.ok soundReport 5) := by
    refine (outcome_eq_ok_iff (by decide)).mpr ⟨[.stdout soundOutput], [], none, rfl,
      fun e he => (hopen e he).1, fun e he => (hopen e he).2, by simp, ?_, ?_⟩
    · rw [hwritten, maxBytes_canaryLimits, Nat.cast_le]
      exact fun h => length_soundOutput.not_ge h.2
    · rw [hwritten, maxBytes_canaryLimits, Nat.floor_natCast,
        List.take_of_length_le length_soundOutput.le, parseOutput_soundOutput]
  exact canary_gates_every_jail (fun _ => .zero false) (fun _ => "") (ofString "t") []
    ⟨4, 8, by decide⟩ _ (.ok soundReport 5) hoccurs
    (fun _ : Unit => ⟨none, none, none, .obj [], canaryLimits⟩) (fun _ => false) []

end OpenRupiv.Sandbox
