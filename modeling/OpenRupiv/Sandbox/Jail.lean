import OpenRupiv.Js.Parse
import OpenRupiv.Js.Trim
import OpenRupiv.Js.Magnitude
import OpenRupiv.Sandbox.Server
import Mathlib.Data.Rat.Floor
import Mathlib.Tactic.Linarith

/-!
# A jailed process

`runJail` of `packages/sandbox/src/jail-executor.ts`, as a machine for the events of the child
process.  Chunks of the output may come after the notification of the exit.
-/

namespace OpenRupiv.Sandbox

open Js

/-- `n >= limit`; `NaN` is none. -/
def reachedBy (limit : Option Num) (n : Nat) : Bool :=
  match limit with
  | none => false
  | some (.infinite neg) => neg
  | some (.zero _) => true
  | some (.finite d) => d.neg || magnitude d ≤ n

/-- `bytes.subarray(0, limit)`: the fraction of the limit is dropped. -/
def subarray (bytes : List UInt8) (limit : Option Num) : List UInt8 :=
  match limit with
  | none => []
  | some (.infinite neg) => if neg then [] else bytes
  | some (.zero _) => []
  | some (.finite d) =>
      if d.neg then
        if ⌊magnitude d⌋₊ = 0 then [] else bytes.take (bytes.length - ⌊magnitude d⌋₊)
      else bytes.take ⌊magnitude d⌋₊

def printLimit (limit : Option Num) : Text := limit.elim (ofString "NaN") Num.print

/-- `\w`. -/
def isWordUnit (u : UInt16) : Bool :=
  (48 ≤ u && u ≤ 57) || (65 ≤ u && u ≤ 90) || (97 ≤ u && u ≤ 122) || u == 95

def matchesHere (words : String) (s : Text) : Bool :=
  (ofString words).isPrefixOf (s.map lowerUnit)

/-- What follows the words is no part of a word. -/
def endsWord (words : String) (s : Text) : Bool :=
  matchesHere words s && !((s[(ofString words).length]?).any isWordUnit)

/-- A match of the pattern at this place, after the unit `before`. -/
def fsEscapeHere (before : Option UInt16) (s : Text) : Bool :=
  matchesHere "read-only file system" s || endsWord "errno 30" s ||
    (!before.any isWordUnit && endsWord "erofs" s)

def fsEscapeFrom (before : Option UInt16) : Text → Bool
  | [] => false
  | u :: rest => fsEscapeHere before (u :: rest) || fsEscapeFrom (some u) rest

/-- `/read-only file system|errno 30\b|\berofs\b/i`. -/
def looksLikeFsEscape (stderrText : Text) : Bool := fsEscapeFrom none stderrText

/-- `/MemoryError/`. -/
def tellsMemoryError (stderrText : Text) : Bool :=
  stderrText.tails.any fun s => (ofString "MemoryError").isPrefixOf s

inductive JailEvent where
  | stdout (chunk : List UInt8)
  | stderr (chunk : List UInt8)
  /-- The wall clock runs out. -/
  | timer
  | exit (code : Option Int) (signal : Option String) (durationMs : Int)
  /-- The process could not be spawned. -/
  | error (message : Text) (durationMs : Int)

/-- The variables of a call; it has settled when there is an outcome. -/
structure Jail where
  stdoutBytes : List UInt8 := []
  stderrBytes : List UInt8 := []
  outputCapped : Bool := false
  timedOut : Bool := false
  outcome : Option JailOutcome := none

def SIGSYS_EXIT_CODE : Int := 159
def SIGXCPU_EXIT_CODE : Int := 152
def SIGXFSZ_EXIT_CODE : Int := 153

section

variable (toNumber : Text → Num) (limits : JailLimits)

/-- The output of a clean exit: JSON if it is, else the text. -/
def parseOutput (stdoutBytes : List UInt8) : Json :=
  let text := trim (fromUtf8 stdoutBytes)
  if text = [] then .scalar .null else (parse toNumber text).getD (.scalar (.str text))

def exitedWith (code : Option Int) : Text :=
  ofString "process exited with code " ++
    code.elim (ofString "null") fun code => (Num.ofInt code).print

/-- The handler of `exit`. -/
def exitOutcome (jail : Jail) (code : Option Int) (signal : Option String) (durationMs : Int) :
    JailOutcome :=
  let stderrText := fromUtf8 jail.stderrBytes
  let message := if stderrText = [] then exitedWith code else stderrText
  if signal = some "SIGSYS" ∨ code = some SIGSYS_EXIT_CODE then
    .violation .network_egress
      (ofString "process was killed by the inner seccomp filter (SIGSYS)") durationMs
  else if code = some SIGXCPU_EXIT_CODE then
    .limit .wall_clock (ofString "tool exceeded the CPU-time backstop (RLIMIT_CPU=30s)") durationMs
  else if code = some SIGXFSZ_EXIT_CODE then
    .limit .output_size
      (ofString "tool exceeded the file-size limit (RLIMIT_FSIZE=67108864 bytes)") durationMs
  else if jail.timedOut then
    .limit .wall_clock
      (ofString "tool execution exceeded wallClockMs=" ++ printLimit limits.wallClockMs) durationMs
  else if jail.outputCapped then
    .limit .output_size
      (ofString "tool output exceeded maxOutputBytes=" ++ printLimit limits.maxOutputBytes)
      durationMs
  else if signal = some "SIGKILL" ∧ code = none then
    .toolError (ofString "process was killed (SIGKILL) for an unclassified reason") durationMs
  else if code = some 0 then .ok (parseOutput toNumber jail.stdoutBytes) durationMs
  else if tellsMemoryError stderrText then .limit .memory message durationMs
  else if looksLikeFsEscape stderrText then .violation .fs_escape message durationMs
  else .toolError message durationMs

/-- One event; the first exit or error settles the call and clears the timer. -/
def Jail.step (jail : Jail) : JailEvent → Jail
  | .stdout chunk =>
      if reachedBy limits.maxOutputBytes jail.stdoutBytes.length then
        { jail with outputCapped := true }
      else
        let stdoutBytes := subarray (jail.stdoutBytes ++ chunk) limits.maxOutputBytes
        { jail with
          stdoutBytes
          outputCapped := jail.outputCapped || reachedBy limits.maxOutputBytes stdoutBytes.length }
  | .stderr chunk => { jail with stderrBytes := (jail.stderrBytes ++ chunk).take 4096 }
  | .timer => if jail.outcome.isSome then jail else { jail with timedOut := true }
  | .exit code signal durationMs =>
      if jail.outcome.isSome then jail
      else { jail with outcome := some (exitOutcome toNumber limits jail code signal durationMs) }
  | .error message durationMs =>
      if jail.outcome.isSome then jail
      else
        { jail with
          outcome := some (.toolError (ofString "failed to spawn jail process: " ++ message)
            durationMs) }

/-- A call over the events of its process. -/
def runJail (events : List JailEvent) : Jail := events.foldl (Jail.step toNumber limits) {}

end

variable {toNumber : Text → Num} {limits : JailLimits} {events before after : List JailEvent}

/-- What the process wrote to stdout, as far as the events bring it. -/
def written (events : List JailEvent) : List UInt8 :=
  events.flatMap fun
    | .stdout chunk => chunk
    | _ => []

def JailEvent.isData : JailEvent → Bool
  | .stdout _ | .stderr _ => true
  | _ => false

def JailEvent.isTimer : JailEvent → Bool
  | .timer => true
  | _ => false

def JailEvent.settles : JailEvent → Bool
  | .exit _ _ _ | .error _ _ => true
  | _ => false

@[simp] theorem runJail_concat (e : JailEvent) :
    runJail toNumber limits (events ++ [e]) =
      (runJail toNumber limits events).step toNumber limits e := by
  rw [runJail, List.foldl_append]
  rfl

theorem outcome_append (h : (runJail toNumber limits before).outcome.isSome = true)
    (after : List JailEvent) :
    (runJail toNumber limits (before ++ after)).outcome =
      (runJail toNumber limits before).outcome := by
  induction after using List.reverseRecOn with
  | nil => rw [List.append_nil]
  | append_singleton after e ih =>
    rw [← List.append_assoc, runJail_concat, ← ih]
    rw [← ih] at h
    cases e with
    | stdout chunk =>
      simp only [Jail.step]
      split <;> rfl
    | stderr chunk => rfl
    | timer => simp only [Jail.step, h, if_true]
    | exit code signal durationMs => simp only [Jail.step, h, if_true]
    | error message durationMs => simp only [Jail.step, h, if_true]

/-- Before the first exit or error a call is open, and has timed out when the wall clock has run
out. -/
theorem runJail_open (h : ∀ e ∈ events, e.settles = false) :
    (runJail toNumber limits events).outcome = none ∧
      (runJail toNumber limits events).timedOut = events.any JailEvent.isTimer := by
  induction events using List.reverseRecOn with
  | nil => exact ⟨rfl, rfl⟩
  | append_singleton events e ih =>
    obtain ⟨houtcome, htimedOut⟩ := ih fun d hd => h d (List.mem_append_left _ hd)
    have he := h e (by simp)
    rw [runJail_concat, List.any_append]
    cases e with
    | stdout chunk =>
      simp only [Jail.step]
      split <;> simp [houtcome, htimedOut, JailEvent.isTimer]
    | stderr chunk => simp [Jail.step, houtcome, htimedOut, JailEvent.isTimer]
    | timer => simp [Jail.step, houtcome, JailEvent.isTimer]
    | exit code signal durationMs => exact absurd he (by simp [JailEvent.settles])
    | error message durationMs => exact absurd he (by simp [JailEvent.settles])

theorem outcome_of_exit (h : ∀ e ∈ before, e.settles = false) (code : Option Int)
    (signal : Option String) (durationMs : Int) (after : List JailEvent) :
    (runJail toNumber limits (before ++ .exit code signal durationMs :: after)).outcome =
      some (exitOutcome toNumber limits (runJail toNumber limits before) code signal durationMs) := by
  have hexit : (runJail toNumber limits (before ++ [.exit code signal durationMs])).outcome =
      some (exitOutcome toNumber limits (runJail toNumber limits before) code signal durationMs) := by
    rw [runJail_concat, Jail.step, (runJail_open h).1]
    rfl
  rw [List.append_cons, outcome_append (by rw [hexit]; rfl), hexit]

theorem outcome_of_error (h : ∀ e ∈ before, e.settles = false) (message : Text) (durationMs : Int)
    (after : List JailEvent) :
    (runJail toNumber limits (before ++ .error message durationMs :: after)).outcome =
      some (.toolError (ofString "failed to spawn jail process: " ++ message) durationMs) := by
  have herror : (runJail toNumber limits (before ++ [.error message durationMs])).outcome =
      some (.toolError (ofString "failed to spawn jail process: " ++ message) durationMs) := by
    rw [runJail_concat, Jail.step, (runJail_open h).1]
    rfl
  rw [List.append_cons, outcome_append (by rw [herror]; rfl), herror]

theorem exitOutcome_eq_ok {jail : Jail} {code : Option Int} {signal : Option String} {d e : Int}
    {output : Json} (h : exitOutcome toNumber limits jail code signal d = .ok output e) :
    code = some 0 ∧ signal ≠ some "SIGSYS" ∧ jail.timedOut = false ∧ jail.outputCapped = false ∧
      d = e ∧ output = parseOutput toNumber jail.stdoutBytes := by
  unfold exitOutcome at h
  dsimp only at h
  split at h
  · exact absurd h (by simp)
  rename_i hviolation
  split at h
  · exact absurd h (by simp)
  split at h
  · exact absurd h (by simp)
  split at h
  · exact absurd h (by simp)
  rename_i htimedOut
  split at h
  · exact absurd h (by simp)
  rename_i hcapped
  split at h
  · exact absurd h (by simp)
  split at h
  · rename_i hcode
    obtain ⟨houtput, hd⟩ := JailOutcome.ok.inj h
    exact ⟨hcode, fun hsignal => hviolation (.inl hsignal), Bool.eq_false_iff.mpr htimedOut,
      Bool.eq_false_iff.mpr hcapped, hd, houtput.symm⟩
  split at h
  · exact absurd h (by simp)
  split at h
  · exact absurd h (by simp)
  · exact absurd h (by simp)

theorem accepted_limit (h : limits.accepted = true) :
    ∃ d, limits.maxOutputBytes = some (.finite d) ∧ d.neg = false := by
  rw [JailLimits.accepted, Bool.and_eq_true] at h
  have hmax := h.2
  unfold isPositiveFiniteLimit at hmax
  split at hmax
  · rename_i d hd
    exact ⟨d, hd, by simpa using hmax⟩
  · exact absurd hmax (by simp)

/-- The value of an accepted limit. -/
def JailLimits.maxBytes (limits : JailLimits) : ℚ :=
  match limits.maxOutputBytes with
  | some (.finite d) => magnitude d
  | _ => 0

theorem maxBytes_pos (h : limits.accepted = true) : 0 < limits.maxBytes := by
  obtain ⟨d, hd, -⟩ := accepted_limit h
  rw [JailLimits.maxBytes, hd]
  exact magnitude_pos d

theorem reachedBy_maxOutputBytes (h : limits.accepted = true) (n : Nat) :
    reachedBy limits.maxOutputBytes n = decide (limits.maxBytes ≤ n) := by
  obtain ⟨d, hd, hneg⟩ := accepted_limit h
  rw [JailLimits.maxBytes, hd, reachedBy, hneg, Bool.false_or]

theorem subarray_maxOutputBytes (h : limits.accepted = true) (bytes : List UInt8) :
    subarray bytes limits.maxOutputBytes = bytes.take ⌊limits.maxBytes⌋₊ := by
  obtain ⟨d, hd, hneg⟩ := accepted_limit h
  rw [JailLimits.maxBytes, hd, subarray, hneg]
  rfl

theorem step_buffer (toNumber : Text → Num) (limits : JailLimits) {e : JailEvent}
    (h : ∀ chunk, e ≠ .stdout chunk) (jail : Jail) :
    (jail.step toNumber limits e).stdoutBytes = jail.stdoutBytes ∧
      (jail.step toNumber limits e).outputCapped = jail.outputCapped ∧
      written [e] = [] := by
  cases e with
  | stdout chunk => exact absurd rfl (h chunk)
  | stderr chunk => exact ⟨rfl, rfl, rfl⟩
  | timer =>
    simp only [Jail.step]
    split <;> exact ⟨rfl, rfl, rfl⟩
  | exit code signal durationMs =>
    simp only [Jail.step]
    split <;> exact ⟨rfl, rfl, rfl⟩
  | error message durationMs =>
    simp only [Jail.step]
    split <;> exact ⟨rfl, rfl, rfl⟩

theorem written_append : written (before ++ after) = written before ++ written after := by
  rw [written, List.flatMap_append]
  rfl

theorem take_take_append {α : Type} (k : Nat) (xs ys : List α) :
    (xs.take k ++ ys).take k = (xs ++ ys).take k := by
  by_cases h : xs.length ≤ k
  · rw [List.take_of_length_le h]
  · rw [List.take_append_of_le_length (by rw [List.length_take]; omega), List.take_take, min_self,
      List.take_append_of_le_length (by omega)]

/-- The buffer holds what was written, up to the limit, and tells when it reaches it. -/
theorem runJail_buffer (toNumber : Text → Num) (h : limits.accepted = true) (events : List JailEvent) :
    (runJail toNumber limits events).stdoutBytes =
        (written events).take ⌊limits.maxBytes⌋₊ ∧
      (runJail toNumber limits events).outputCapped =
        decide (limits.maxBytes ≤ (runJail toNumber limits events).stdoutBytes.length) := by
  induction events using List.reverseRecOn with
  | nil =>
    have hpos := maxBytes_pos h
    simp [runJail, written, hpos]
  | append_singleton events e ih =>
    obtain ⟨hbytes, hcapped⟩ := ih
    rw [runJail_concat, written_append]
    by_cases hstdout : ∀ chunk, e ≠ .stdout chunk
    · obtain ⟨hsame, hflag, hnil⟩ := step_buffer toNumber limits hstdout
        (runJail toNumber limits events)
      rw [hsame, hflag, hnil, List.append_nil]
      exact ⟨hbytes, hcapped⟩
    · push Not at hstdout
      obtain ⟨chunk, rfl⟩ := hstdout
      have hchunk : written [.stdout chunk] = chunk := by simp [written]
      rw [hchunk]
      simp only [Jail.step, reachedBy_maxOutputBytes h, subarray_maxOutputBytes h]
      split
      · rename_i hfull
        rw [decide_eq_true_eq] at hfull
        refine ⟨?_, by simpa using hfull⟩
        rw [hbytes, List.length_take] at hfull
        have hfloor : ⌊limits.maxBytes⌋₊ ≤ min ⌊limits.maxBytes⌋₊ (written events).length :=
          Nat.floor_le_of_le hfull
        rw [hbytes, List.take_append_of_le_length (hfloor.trans (min_le_right _ _))]
      · rename_i hroom
        rw [hcapped, Bool.eq_false_iff.mpr hroom, Bool.false_or]
        refine ⟨?_, rfl⟩
        rw [hbytes, take_take_append]

/-- The limit is a whole number. -/
def Whole (q : ℚ) : Prop := (⌊q⌋₊ : ℚ) = q

instance (q : ℚ) : Decidable (Whole q) := inferInstanceAs (Decidable ((⌊q⌋₊ : ℚ) = q))

theorem outputCapped_iff (toNumber : Text → Num) (haccepted : limits.accepted = true)
    (events : List JailEvent) :
    (runJail toNumber limits events).outputCapped = true ↔
      Whole limits.maxBytes ∧ limits.maxBytes ≤ (written events).length := by
  obtain ⟨hbytes, hcapped⟩ := runJail_buffer toNumber haccepted events
  rw [hcapped, hbytes, decide_eq_true_eq, List.length_take, Nat.cast_min, le_min_iff]
  have hfloor : (⌊limits.maxBytes⌋₊ : ℚ) ≤ limits.maxBytes :=
    Nat.floor_le (maxBytes_pos haccepted).le
  constructor
  · intro hle
    exact ⟨le_antisymm hfloor hle.1, hle.2⟩
  · intro hle
    exact ⟨hle.1.ge, hle.2⟩

/-- After a clean exit in time, the limit is reported for what has reached it. -/
theorem outcome_of_clean_exit (toNumber : Text → Num) (haccepted : limits.accepted = true)
    (hopen : ∀ e ∈ before, e.settles = false) (htime : ∀ e ∈ before, e.isTimer = false)
    {signal : Option String} (hsignal : signal ≠ some "SIGSYS") (durationMs : Int)
    (after : List JailEvent) :
    (runJail toNumber limits (before ++ .exit (some 0) signal durationMs :: after)).outcome =
      some (if Whole limits.maxBytes ∧ limits.maxBytes ≤ (written before).length then
        .limit .output_size
          (ofString "tool output exceeded maxOutputBytes=" ++ printLimit limits.maxOutputBytes)
          durationMs
      else
        .ok (parseOutput toNumber ((written before).take ⌊limits.maxBytes⌋₊)) durationMs) := by
  have htimedOut : (runJail toNumber limits before).timedOut = false := by
    rw [(runJail_open hopen).2, List.any_eq_false]
    intro e he
    simp [htime e he]
  rw [outcome_of_exit hopen]
  unfold exitOutcome
  simp only [hsignal, SIGSYS_EXIT_CODE, SIGXCPU_EXIT_CODE, SIGXFSZ_EXIT_CODE, htimedOut,
    (runJail_buffer toNumber haccepted before).1, outputCapped_iff toNumber haccepted before]
  simp

/-- After a clean exit in time, the limit is reported exactly for an output over the limit, and an
output that is reported is the whole one, exactly when the output is under the limit or the limit is
a whole number that it exceeds. -/
theorem output_limit_sound_iff (haccepted : limits.accepted = true)
    (hdata : ∀ e ∈ before, e.isData = true) (durationMs : Int) (after : List JailEvent) :
    (((∃ message d, (runJail toNumber limits
            (before ++ .exit (some 0) none durationMs :: after)).outcome =
          some (.limit .output_size message d)) ↔ limits.maxBytes < (written before).length) ∧
      ∀ output d, (runJail toNumber limits
          (before ++ .exit (some 0) none durationMs :: after)).outcome = some (.ok output d) →
        output = parseOutput toNumber (written before)) ↔
    (written before).length < limits.maxBytes ∨
      Whole limits.maxBytes ∧ limits.maxBytes < (written before).length := by
  have hopen : ∀ e ∈ before, e.settles = false ∧ e.isTimer = false := by
    intro e he
    cases e with
    | stdout chunk => exact ⟨rfl, rfl⟩
    | stderr chunk => exact ⟨rfl, rfl⟩
    | timer => exact absurd (hdata _ he) (by simp [JailEvent.isData])
    | exit code signal d => exact absurd (hdata _ he) (by simp [JailEvent.isData])
    | error message d => exact absurd (hdata _ he) (by simp [JailEvent.isData])
  rw [outcome_of_clean_exit toNumber haccepted (fun e he => (hopen e he).1)
    (fun e he => (hopen e he).2) (by simp)]
  rcases lt_trichotomy limits.maxBytes (written before).length with hlt | heq | hgt
  · by_cases hwhole : Whole limits.maxBytes
    · simp [hwhole, hlt, hlt.le]
    · simp [hwhole, hlt, hlt.le]
  · have hwhole : Whole ((written before).length : ℚ) := by rw [Whole, Nat.floor_natCast]
    simp [hwhole, heq]
  · have hfit : (written before).take ⌊limits.maxBytes⌋₊ = written before :=
      List.take_of_length_le (Nat.le_floor hgt.le)
    simp [hgt, hgt.not_ge, hgt.not_gt, hfit]

def outputLimits (maxOutputBytes : Decimal) : JailLimits where
  wallClockMs := some (.ofInt 30000)
  memoryBytes := some (.ofInt 268435456)
  maxOutputBytes := some (.finite maxOutputBytes)

/-- The number 4. -/
def four : Decimal := ⟨false, [4], 1, by decide⟩

/-- The number 3.5. -/
def threeAndAHalf : Decimal := ⟨false, [3, 5], 1, by decide⟩

/-- An output of three bytes under a limit of four. -/
theorem output_limit_sound_under :
    ((∃ message d, (runJail (fun _ => .zero false) (outputLimits four)
          [.stdout (toUtf8 (ofString "tru")), .exit (some 0) none 5]).outcome =
        some (.limit .output_size message d)) ↔
      (outputLimits four).maxBytes < (written [.stdout (toUtf8 (ofString "tru"))]).length) ∧
    ∀ output d, (runJail (fun _ => .zero false) (outputLimits four)
        [.stdout (toUtf8 (ofString "tru")), .exit (some 0) none 5]).outcome =
          some (.ok output d) →
      output = parseOutput (fun _ => .zero false) (written [.stdout (toUtf8 (ofString "tru"))]) := by
  have haccepted : (outputLimits four).accepted = true := by decide
  have hdata : ∀ e ∈ [JailEvent.stdout (toUtf8 (ofString "tru"))], e.isData = true := by
    intro e he
    rw [List.mem_singleton.mp he]
    rfl
  have hlength : (written [.stdout (toUtf8 (ofString "tru"))]).length = 3 := by decide
  exact (output_limit_sound_iff haccepted hdata 5 []).mpr (.inl (by
    norm_num [hlength, JailLimits.maxBytes, outputLimits, magnitude, four, digitsValue]))

/-- An output that fits exactly is reported, and one over a fractional limit is cut without notice:
`true` reads as `tru`. -/
theorem output_limit_unsound :
    (outputLimits four).accepted = true ∧ (outputLimits threeAndAHalf).accepted = true ∧
      ∀ toNumber : Text → Num,
        (runJail toNumber (outputLimits four)
            [.stdout (toUtf8 (ofString "true")), .exit (some 0) none 5]).outcome =
          some (.limit .output_size (ofString "tool output exceeded maxOutputBytes=4") 5) ∧
        (written [.stdout (toUtf8 (ofString "true"))]).length = (outputLimits four).maxBytes ∧
        (runJail toNumber (outputLimits threeAndAHalf)
            [.stdout (toUtf8 (ofString "true")), .exit (some 0) none 5]).outcome =
          some (.ok (.scalar (.str (ofString "tru"))) 5) ∧
        (outputLimits threeAndAHalf).maxBytes <
          (written [.stdout (toUtf8 (ofString "true"))]).length := by
  have hfour : (outputLimits four).accepted = true := by decide
  have hhalf : (outputLimits threeAndAHalf).accepted = true := by decide
  have hfourBytes : (outputLimits four).maxBytes = 4 := by
    norm_num [JailLimits.maxBytes, outputLimits, magnitude, four, digitsValue]
  have hhalfBytes : (outputLimits threeAndAHalf).maxBytes = 7 / 2 := by
    norm_num [JailLimits.maxBytes, outputLimits, magnitude, threeAndAHalf, digitsValue]
  have hlength : (written [.stdout (toUtf8 (ofString "true"))]).length = 4 := by decide
  have hopen : ∀ e ∈ [JailEvent.stdout (toUtf8 (ofString "true"))],
      e.settles = false ∧ e.isTimer = false := by
    intro e he
    rw [List.mem_singleton.mp he]
    exact ⟨rfl, rfl⟩
  refine ⟨hfour, hhalf, fun toNumber => ⟨?_, ?_, ?_, ?_⟩⟩
  · refine (outcome_of_clean_exit toNumber hfour (fun e he => (hopen e he).1)
      (fun e he => (hopen e he).2) (by simp) 5 []).trans ?_
    rw [hfourBytes, hlength, if_pos ⟨by norm_num [Whole], by norm_num⟩]
    rfl
  · rw [hfourBytes, hlength]
    norm_num
  · have hfloor : ⌊(7 / 2 : ℚ)⌋₊ = 3 :=
      (Nat.floor_eq_iff (by norm_num)).mpr ⟨by norm_num, by norm_num⟩
    have hfraction : ¬Whole (7 / 2) := by
      rw [Whole, hfloor]
      norm_num
    refine (outcome_of_clean_exit toNumber hhalf (fun e he => (hopen e he).1)
      (fun e he => (hopen e he).2) (by simp) 5 []).trans ?_
    rw [hhalfBytes, if_neg fun h => hfraction h.1, hfloor]
    rfl
  · rw [hhalfBytes, hlength]
    norm_num

/-- The call resolves well exactly at a clean exit, the first event to settle it, within the time
and below the limit. -/
theorem outcome_eq_ok_iff (haccepted : limits.accepted = true) {output : Json} {durationMs : Int} :
    (runJail toNumber limits events).outcome = some (.ok output durationMs) ↔
      ∃ before after signal, events = before ++ .exit (some 0) signal durationMs :: after ∧
        (∀ e ∈ before, e.settles = false) ∧ (∀ e ∈ before, e.isTimer = false) ∧
        signal ≠ some "SIGSYS" ∧
        ¬(Whole limits.maxBytes ∧ limits.maxBytes ≤ (written before).length) ∧
        output = parseOutput toNumber ((written before).take ⌊limits.maxBytes⌋₊) := by
  constructor
  · intro h
    cases hfind : events.find? JailEvent.settles with
    | none =>
      have hopen : ∀ e ∈ events, e.settles = false := by
        intro e he
        simpa using List.find?_eq_none.mp hfind e he
      rw [(runJail_open hopen).1] at h
      exact absurd h (by simp)
    | some e =>
      obtain ⟨hsettles, before, after, rfl, hbefore⟩ := List.find?_eq_some_iff_append.mp hfind
      have hopen : ∀ e ∈ before, e.settles = false := by
        intro e he
        simpa using hbefore e he
      cases e with
      | stdout chunk => exact absurd hsettles (by simp [JailEvent.settles])
      | stderr chunk => exact absurd hsettles (by simp [JailEvent.settles])
      | timer => exact absurd hsettles (by simp [JailEvent.settles])
      | error message d =>
        rw [outcome_of_error hopen] at h
        exact absurd h (by simp)
      | exit code signal d =>
        rw [outcome_of_exit hopen, Option.some.injEq] at h
        obtain ⟨rfl, hsignal, htimedOut, hcapped, rfl, rfl⟩ := exitOutcome_eq_ok h
        rw [(runJail_open hopen).2, List.any_eq_false] at htimedOut
        refine ⟨before, after, signal, rfl, hopen, fun e he => by simpa using htimedOut e he,
          hsignal, ?_, ?_⟩
        · rw [← outputCapped_iff toNumber haccepted, hcapped]
          simp
        · rw [(runJail_buffer toNumber haccepted before).1]
  · intro h
    obtain ⟨before, after, signal, rfl, hopen, htime, hsignal, hlimit, rfl⟩ := h
    rw [outcome_of_clean_exit toNumber haccepted hopen htime hsignal, if_neg hlimit]

/-- A call that resolves well tells what the whole output of its process parses to. -/
def Complete (toNumber : Text → Num) (limits : JailLimits) (events : List JailEvent) : Prop :=
  ∀ output d, (runJail toNumber limits events).outcome = some (.ok output d) →
    output = parseOutput toNumber (written events)

/-- A clean exit in time, the first event to settle the call, finds the limit reached and seen to be,
or all of the output within the limit. -/
def CompleteBeforeExit (limits : JailLimits) (events : List JailEvent) : Prop :=
  ∀ before after signal d, events = before ++ .exit (some 0) signal d :: after →
    (∀ e ∈ before, e.settles = false) → (∀ e ∈ before, e.isTimer = false) →
    signal ≠ some "SIGSYS" →
    (Whole limits.maxBytes ∧ limits.maxBytes ≤ (written before).length) ∨
      (written after = [] ∧ (written before).length ≤ limits.maxBytes)

theorem complete_of_beforeExit (haccepted : limits.accepted = true)
    (h : CompleteBeforeExit limits events) : Complete toNumber limits events := by
  intro output d houtcome
  obtain ⟨before, after, signal, rfl, hopen, htime, hsignal, hlimit, rfl⟩ :=
    (outcome_eq_ok_iff haccepted).mp houtcome
  obtain hreached | ⟨hafter, hfits⟩ := h before after signal d rfl hopen htime hsignal
  · exact absurd hreached hlimit
  · have hexit : written (.exit (some 0) signal d :: after) = written after := rfl
    rw [written_append, hexit, hafter, List.append_nil, List.take_of_length_le (Nat.le_floor hfits)]

/-- The same events, with chunks of the same sizes on stdout. -/
def JailEvent.SameSize : JailEvent → JailEvent → Prop
  | .stdout chunk, .stdout chunk' => chunk.length = chunk'.length
  | e, e' => e = e'

theorem JailEvent.SameSize.eq_of_ne {e e' : JailEvent} (h : e.SameSize e')
    (hne : ∀ chunk, e' ≠ .stdout chunk) : e = e' := by
  cases e' with
  | stdout chunk => exact absurd rfl (hne chunk)
  | _ => cases e <;> exact h

theorem written_length_of_sameSize {other : List JailEvent}
    (h : List.Forall₂ JailEvent.SameSize events other) :
    (written events).length = (written other).length := by
  have hcons : ∀ f : JailEvent, ∀ more, written (f :: more) = written [f] ++ written more :=
    fun f _ => @written_append [f] _
  induction h with
  | nil => rfl
  | @cons e e' events other hsame _ ih =>
    rw [hcons, hcons e', List.length_append, List.length_append, ih]
    by_cases hne : ∀ chunk, e' ≠ .stdout chunk
    · rw [hsame.eq_of_ne hne]
    · push Not at hne
      obtain ⟨chunk', rfl⟩ := hne
      cases e with
      | stdout chunk =>
        have hlength : chunk.length = chunk'.length := hsame
        simp [written, hlength]
      | _ => cases hsame

theorem all_false_of_sameSize {S : JailEvent → Bool} (hS : ∀ chunk, S (.stdout chunk) = false)
    {other : List JailEvent} (h : List.Forall₂ JailEvent.SameSize events other)
    (hother : ∀ e ∈ other, S e = false) : ∀ e ∈ events, S e = false := by
  induction h with
  | nil => simp
  | @cons e e' events other hsame _ ih =>
    rw [List.forall_mem_cons] at hother ⊢
    refine ⟨?_, ih hother.2⟩
    cases e with
    | stdout chunk => exact hS chunk
    | _ =>
      cases e' <;> cases hsame
      exact hother.1

/-- Whether all of the output comes before the exit is a matter of the sizes. -/
theorem CompleteBeforeExit.sameSize (h : CompleteBeforeExit limits events) {other : List JailEvent}
    (hsame : List.Forall₂ JailEvent.SameSize events other) : CompleteBeforeExit limits other := by
  intro before after signal d hother hopen htime hsignal
  subst hother
  have hbefore := List.forall₂_take_append _ _ _ hsame
  have hrest := List.forall₂_drop_append _ _ _ hsame
  obtain ⟨e, after', hexit, hafter, hdrop⟩ := List.forall₂_cons_right_iff.mp hrest
  obtain rfl := hexit.eq_of_ne (by simp)
  have hsplit := List.take_append_drop before.length events
  rw [hdrop] at hsplit
  have hsizes := h _ _ signal d hsplit.symm (all_false_of_sameSize (fun _ => rfl) hbefore hopen)
    (all_false_of_sameSize (fun _ => rfl) hbefore htime) hsignal
  rwa [written_length_of_sameSize hbefore, ← List.length_eq_zero_iff,
    written_length_of_sameSize hafter, List.length_eq_zero_iff] at hsizes

def JailEvent.letters : JailEvent → JailEvent
  | .stdout chunk => .stdout (List.replicate chunk.length 97)
  | e => e

theorem sameSize_letters (events : List JailEvent) :
    List.Forall₂ JailEvent.SameSize events (events.map JailEvent.letters) := by
  rw [List.forall₂_map_right_iff, List.forall₂_same]
  intro e _
  cases e with
  | stdout chunk => exact List.length_replicate.symm
  | _ => rfl

theorem written_letters (events : List JailEvent) :
    written (events.map JailEvent.letters) = List.replicate (written events).length 97 := by
  induction events with
  | nil => rfl
  | cons e events ih =>
    have hcons : ∀ f : JailEvent, ∀ more, written (f :: more) = written [f] ++ written more :=
      fun f _ => @written_append [f] _
    rw [List.map_cons, hcons, hcons e, ih, List.length_append, List.replicate_add]
    cases e <;> simp [JailEvent.letters, written]

theorem parseOutput_letters (toNumber : Text → Num) (n : Nat) :
    parseOutput toNumber (List.replicate n 97) =
      if n = 0 then .scalar .null else .scalar (.str (List.replicate n 97)) := by
  have hdecode : fromUtf8 (List.replicate n 97) = List.replicate n 97 := by
    induction n with
    | zero => rfl
    | succ n ih => exact congrArg (List.cons 97) ih
  have htrim : trim (List.replicate n 97) = List.replicate n 97 := by
    have hwhite : isWhite 97 = false := by decide
    rw [trim, List.dropWhile_replicate]
    simp [hwhite, List.rdropWhile]
  cases n with
  | zero => rfl
  | succ n =>
    have hparse : parse toNumber (List.replicate (n + 1) 97) = none := rfl
    rw [parseOutput, hdecode, htrim, hparse]
    rfl

theorem parseOutput_letters_injective (toNumber : Text → Num) {m n : Nat}
    (h : parseOutput toNumber (List.replicate m 97) = parseOutput toNumber (List.replicate n 97)) :
    m = n := by
  rw [parseOutput_letters, parseOutput_letters] at h
  split at h <;> split at h
  · omega
  · cases h
  · cases h
  · simpa using congrArg List.length (Scalar.str.inj (Json.scalar.inj h))

/-- A call that resolves well tells the whole output when a clean exit finds all of it within the
limit, or the limit reached and seen to be; and only then, whatever the bytes are. -/
theorem output_complete_iff (toNumber : Text → Num) (haccepted : limits.accepted = true)
    (events : List JailEvent) :
    (CompleteBeforeExit limits events → Complete toNumber limits events) ∧
      ((∀ other, List.Forall₂ JailEvent.SameSize events other → Complete toNumber limits other) ↔
        CompleteBeforeExit limits events) := by
  refine ⟨complete_of_beforeExit haccepted, ?_, ?_⟩
  · intro h before after signal d hevents hopen htime hsignal
    by_contra hnot
    rw [not_or] at hnot
    have hother := h _ (sameSize_letters events)
    have hmap : ∀ {S : JailEvent → Bool}, (∀ e, S (JailEvent.letters e) = S e) →
        (∀ e ∈ before, S e = false) → ∀ e ∈ before.map JailEvent.letters, S e = false := by
      intro S hS hbefore e he
      obtain ⟨e', he', rfl⟩ := List.mem_map.mp he
      rw [hS, hbefore e' he']
    have hlength : (written (before.map JailEvent.letters)).length = (written before).length := by
      rw [written_letters, List.length_replicate]
    rw [hevents, List.map_append, List.map_cons] at hother
    have houtcome := outcome_of_clean_exit toNumber haccepted
      (hmap (fun e => by cases e <;> rfl) hopen) (hmap (fun e => by cases e <;> rfl) htime)
      hsignal d (after.map JailEvent.letters)
    rw [hlength, if_neg hnot.1] at houtcome
    have hall := hother _ _ houtcome
    have hwritten : written (before.map JailEvent.letters ++ JailEvent.exit (some 0) signal d ::
        after.map JailEvent.letters) =
        List.replicate ((written before).length + (written after).length) 97 := by
      rw [written_append, written_letters, List.replicate_add, ← written_letters after]
      rfl
    have hexit : (JailEvent.exit (some 0) signal d).letters = .exit (some 0) signal d := rfl
    rw [hexit, hwritten, written_letters, List.take_replicate] at hall
    have hcut := parseOutput_letters_injective toNumber hall
    refine hnot.2 ⟨List.eq_nil_of_length_eq_zero (by omega), ?_⟩
    have hfloor : (written before).length ≤ ⌊limits.maxBytes⌋₊ := by omega
    exact (Nat.le_floor_iff (maxBytes_pos haccepted).le).mp hfloor
  · intro h other hsame
    exact complete_of_beforeExit haccepted (h.sameSize hsame)

/-- The number 1048576. -/
def mebibyte : Decimal := ⟨false, [1, 0, 4, 8, 5, 7, 6], 7, by decide⟩

theorem floor_mebibyte : ⌊(outputLimits mebibyte).maxBytes⌋₊ = 1048576 := by
  have hbytes : (outputLimits mebibyte).maxBytes = (1048576 : Nat) := by
    norm_num [JailLimits.maxBytes, outputLimits, magnitude, mebibyte, digitsValue]
  rw [hbytes, Nat.floor_natCast]

/-- All of the output comes before the exit. -/
theorem output_complete_in_order :
    (outputLimits mebibyte).accepted = true ∧
      ∀ output d, (runJail (fun _ => .zero false) (outputLimits mebibyte)
          [.stdout (toUtf8 (ofString "true")), .exit (some 0) none 5]).outcome =
            some (.ok output d) →
        output = parseOutput (fun _ => .zero false)
          (written [.stdout (toUtf8 (ofString "true")), .exit (some 0) none 5]) := by
  have haccepted : (outputLimits mebibyte).accepted = true := by decide
  refine ⟨haccepted, (output_complete_iff _ haccepted _).1 ?_⟩
  intro before after signal d hevents _ _ _
  rcases before with _ | ⟨e, _ | ⟨f, before⟩⟩
  · simp at hevents
  · simp only [List.cons_append, List.nil_append, List.cons.injEq] at hevents
    obtain ⟨rfl, -, rfl⟩ := hevents
    have hlength : (written [.stdout (toUtf8 (ofString "true"))]).length = 4 := by decide
    have hfits : (4 : Nat) ≤ ⌊(outputLimits mebibyte).maxBytes⌋₊ := by
      rw [floor_mebibyte]
      omega
    rw [hlength]
    exact .inr ⟨rfl, (Nat.le_floor_iff (maxBytes_pos haccepted).le).mp hfits⟩
  · simp at hevents

/-- The end of a JSON text comes after the exit: the text before it is returned as a string. -/
theorem late_output_lost :
    (outputLimits mebibyte).accepted = true ∧
      ∀ toNumber : Text → Num,
        (runJail toNumber (outputLimits mebibyte)
            [.stdout (toUtf8 (ofString "[\"a\"")), .exit (some 0) none 5,
              .stdout (toUtf8 (ofString "]"))]).outcome =
          some (.ok (.scalar (.str (ofString "[\"a\""))) 5) ∧
        parseOutput toNumber (written [.stdout (toUtf8 (ofString "[\"a\"")),
            .exit (some 0) none 5, .stdout (toUtf8 (ofString "]"))]) =
          .arr [.scalar (.str (ofString "a"))] := by
  have haccepted : (outputLimits mebibyte).accepted = true := by decide
  refine ⟨haccepted, fun toNumber => ⟨?_, rfl⟩⟩
  have hopen : ∀ e ∈ [JailEvent.stdout (toUtf8 (ofString "[\"a\""))],
      e.settles = false ∧ e.isTimer = false := by
    intro e he
    rw [List.mem_singleton.mp he]
    exact ⟨rfl, rfl⟩
  refine (outcome_of_clean_exit toNumber haccepted (fun e he => (hopen e he).1)
    (fun e he => (hopen e he).2) (by simp) 5 _).trans ?_
  have hlength : (written [.stdout (toUtf8 (ofString "[\"a\""))]).length = 4 := by decide
  have hbelow : ¬(outputLimits mebibyte).maxBytes ≤ ((4 : Nat) : ℚ) := by
    intro hle
    have hfloor := Nat.floor_mono hle
    rw [floor_mebibyte, Nat.floor_natCast] at hfloor
    omega
  rw [hlength, if_neg fun h => hbelow h.2, floor_mebibyte]
  rfl

end OpenRupiv.Sandbox
