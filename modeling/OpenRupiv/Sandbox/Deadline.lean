import OpenRupiv.Sandbox.Jail

/-!
# The wall clock of a jail

The timer of `runJail` in `packages/sandbox/src/jail-executor.ts`, under the law of `setTimeout`:
it never runs early, and a delay that is out of range is replaced by a millisecond.
-/

namespace OpenRupiv.Sandbox

open Js

/-- The longest delay of a timer. -/
def TIMEOUT_MAX : ℚ := 2147483647

/-- The whole milliseconds that `setTimeout` waits for. -/
def timerDelay (after : Option Num) : Nat :=
  match after with
  | some (.finite d) =>
      if d.neg = false ∧ 1 ≤ magnitude d ∧ magnitude d ≤ TIMEOUT_MAX then ⌊magnitude d⌋₊ else 1
  | _ => 1

/-- An event, and the milliseconds since the start of the call. -/
structure Moment where
  elapsed : ℚ
  event : JailEvent

/-- The events of a call with their times: the timer is set at the start, runs out once, and is
cleared when the call settles. -/
structure Timely (limits : JailLimits) (run : List Moment) : Prop where
  sorted : run.Pairwise fun m n => m.elapsed ≤ n.elapsed
  waits : ∀ m ∈ run, m.event.isTimer = true → (timerDelay limits.wallClockMs : ℚ) ≤ m.elapsed
  once : run.Pairwise fun m n => m.event.isTimer = true → n.event.isTimer = false
  cleared : run.Pairwise fun m n => m.event.settles = true → n.event.isTimer = false

/-- When the timer kills the child. -/
def killedAt (run : List Moment) : List ℚ :=
  ((run.takeWhile fun m => !m.event.settles).filter fun m => m.event.isTimer).map Moment.elapsed

def settledAt (run : List Moment) : Option ℚ :=
  (run.find? fun m => m.event.settles).map Moment.elapsed

/-- The value of a positive finite limit. -/
def JailLimits.wallMs (limits : JailLimits) : ℚ :=
  match limits.wallClockMs with
  | some (.finite d) => magnitude d
  | _ => 0

/-- What is reported when the timer has run out. -/
def exceeded (limits : JailLimits) (durationMs : Int) : JailOutcome :=
  .limit .wall_clock
    (ofString "tool execution exceeded wallClockMs=" ++ printLimit limits.wallClockMs) durationMs

/-- Neither the kill nor the report comes before the limit, in whole milliseconds. -/
def DeadlineKept (toNumber : Text → Num) (limits : JailLimits) (run : List Moment) : Prop :=
  (∀ t ∈ killedAt run, (⌊limits.wallMs⌋₊ : ℚ) ≤ t) ∧
    ∀ durationMs t, (runJail toNumber limits (run.map Moment.event)).outcome =
      some (exceeded limits durationMs) → settledAt run = some t → (⌊limits.wallMs⌋₊ : ℚ) ≤ t

variable {toNumber : Text → Num} {limits : JailLimits} {run : List Moment}

theorem accepted_wallClock (h : isPositiveFiniteLimit limits.wallClockMs = true) :
    ∃ d, limits.wallClockMs = some (.finite d) ∧ d.neg = false ∧ limits.wallMs = magnitude d := by
  unfold isPositiveFiniteLimit at h
  split at h
  · rename_i d hd
    exact ⟨d, hd, by simpa using h, by rw [JailLimits.wallMs, hd]⟩
  · exact absurd h (by simp)

theorem timerDelay_wallClock (h : isPositiveFiniteLimit limits.wallClockMs = true) :
    timerDelay limits.wallClockMs =
      if 1 ≤ limits.wallMs ∧ limits.wallMs ≤ TIMEOUT_MAX then ⌊limits.wallMs⌋₊ else 1 := by
  obtain ⟨d, hd, hneg, hms⟩ := accepted_wallClock h
  rw [hd, timerDelay, hms, hneg]
  simp

theorem floor_le_timerDelay (h : isPositiveFiniteLimit limits.wallClockMs = true)
    (hmax : limits.wallMs ≤ TIMEOUT_MAX) : ⌊limits.wallMs⌋₊ ≤ timerDelay limits.wallClockMs := by
  rw [timerDelay_wallClock h]
  split
  · exact le_refl _
  · rename_i hrange
    have hlt : limits.wallMs < 1 := by
      by_contra hge
      exact hrange ⟨not_lt.mp hge, hmax⟩
    rw [Nat.floor_eq_zero.mpr hlt]
    exact Nat.zero_le 1

theorem timedOut_of_exceeded {jail : Jail} {code : Option Int} {signal : Option String}
    {d e : Int} (h : exitOutcome toNumber limits jail code signal d = exceeded limits e) :
    jail.timedOut = true := by
  have hcpu : ∀ s, ofString "tool exceeded the CPU-time backstop (RLIMIT_CPU=30s)" ≠
      ofString "tool execution exceeded wallClockMs=" ++ s := by
    intro s heq
    have htake := congrArg (List.take 10) heq
    rw [List.take_append_of_le_length (by decide)] at htake
    exact absurd htake (by decide)
  unfold exitOutcome exceeded at h
  dsimp only at h
  split at h
  · exact absurd h (by simp)
  split at h
  · simp only [JailOutcome.limit.injEq] at h
    exact absurd h.2.1 (hcpu _)
  split at h
  · exact absurd h (by simp)
  split at h
  · assumption
  split at h
  · exact absurd h (by simp)
  split at h
  · exact absurd h (by simp)
  split at h
  · exact absurd h (by simp)
  split at h
  · exact absurd h (by simp)
  split at h
  · exact absurd h (by simp)
  · exact absurd h (by simp)

theorem mem_killedAt {t : ℚ} (h : t ∈ killedAt run) :
    ∃ m ∈ run, m.event.isTimer = true ∧ m.elapsed = t := by
  obtain ⟨m, hm, rfl⟩ := List.mem_map.mp h
  obtain ⟨hmem, htimer⟩ := List.mem_filter.mp hm
  exact ⟨m, (List.takeWhile_subset _) hmem, htimer, rfl⟩

theorem timer_before_report {d : Int} {t : ℚ}
    (h : (runJail toNumber limits (run.map Moment.event)).outcome = some (exceeded limits d))
    (hsettled : settledAt run = some t) :
    ∃ before m after n, run = before ++ m :: after ∧ m.elapsed = t ∧ n ∈ before ∧
      n.event.isTimer = true := by
  obtain ⟨m, hfind, rfl⟩ := Option.map_eq_some_iff.mp hsettled
  obtain ⟨hsettles, before, after, rfl, hbefore⟩ := List.find?_eq_some_iff_append.mp hfind
  have hopen : ∀ e ∈ before.map Moment.event, e.settles = false := by
    intro e he
    obtain ⟨n, hn, rfl⟩ := List.mem_map.mp he
    simpa using hbefore n hn
  rw [List.map_append, List.map_cons] at h
  have htimer : (before.map Moment.event).any JailEvent.isTimer = true := by
    rw [← (@runJail_open toNumber limits _ hopen).2]
    cases hevent : m.event with
    | stdout chunk => simp [hevent, JailEvent.settles] at hsettles
    | stderr chunk => simp [hevent, JailEvent.settles] at hsettles
    | timer => simp [hevent, JailEvent.settles] at hsettles
    | error message durationMs =>
      rw [hevent, outcome_of_error hopen] at h
      exact absurd h (by simp [exceeded])
    | exit code signal durationMs =>
      rw [hevent, outcome_of_exit hopen, Option.some.injEq] at h
      exact timedOut_of_exceeded h
  obtain ⟨e, he, hisTimer⟩ := List.any_eq_true.mp htimer
  obtain ⟨n, hn, rfl⟩ := List.mem_map.mp he
  exact ⟨before, m, after, n, rfl, rfl, hn, hisTimer⟩

theorem deadlineKept_of_le (h : isPositiveFiniteLimit limits.wallClockMs = true)
    (hmax : limits.wallMs ≤ TIMEOUT_MAX) (htimely : Timely limits run) :
    DeadlineKept toNumber limits run := by
  have hdelay : (⌊limits.wallMs⌋₊ : ℚ) ≤ timerDelay limits.wallClockMs := by
    exact_mod_cast floor_le_timerDelay h hmax
  constructor
  · intro t ht
    obtain ⟨m, hm, htimer, rfl⟩ := mem_killedAt ht
    exact hdelay.trans (htimely.waits m hm htimer)
  · intro durationMs t hreport hsettled
    obtain ⟨before, m, after, n, rfl, rfl, hn, htimer⟩ := timer_before_report hreport hsettled
    have hwaits := htimely.waits n (List.mem_append_left _ hn) htimer
    have hsorted := (List.pairwise_append.mp htimely.sorted).2.2 n hn m (by simp)
    exact hdelay.trans (hwaits.trans hsorted)

/-- A child that the timer kills after a millisecond. -/
def killedAtOnce : List Moment := [⟨1, .timer⟩, ⟨1, .exit none (some "SIGKILL") 1⟩]

theorem killedAtOnce_timely (h : isPositiveFiniteLimit limits.wallClockMs = true)
    (hmax : TIMEOUT_MAX < limits.wallMs) : Timely limits killedAtOnce := by
  have hdelay : timerDelay limits.wallClockMs = 1 := by
    rw [timerDelay_wallClock h, if_neg fun hrange => hmax.not_ge hrange.2]
  constructor
  · simp [killedAtOnce]
  · simp [killedAtOnce, hdelay, JailEvent.isTimer]
  · simp [killedAtOnce, JailEvent.isTimer]
  · simp [killedAtOnce, JailEvent.isTimer]

/-- The limit is kept in every run exactly when a timer can wait for it. -/
theorem deadline_kept_iff (toNumber : Text → Num) (limits : JailLimits)
    (h : isPositiveFiniteLimit limits.wallClockMs = true) :
    (∀ run, Timely limits run → DeadlineKept toNumber limits run) ↔
      limits.wallMs ≤ TIMEOUT_MAX := by
  constructor
  · intro hkept
    by_contra hmax
    have hkill := (hkept _ (killedAtOnce_timely h (not_le.mp hmax))).1 1
      (by simp [killedAt, killedAtOnce, JailEvent.settles, JailEvent.isTimer])
    have hfloor : 2 ≤ ⌊limits.wallMs⌋₊ := by
      apply Nat.le_floor
      refine le_trans ?_ (not_le.mp hmax).le
      norm_num [TIMEOUT_MAX]
    have hcast : (2 : ℚ) ≤ ⌊limits.wallMs⌋₊ := by exact_mod_cast hfloor
    linarith
  · intro hmax run htimely
    exact deadlineKept_of_le h hmax htimely

/-- The number 2147483648. -/
def pastTimeoutMax : Decimal := ⟨false, [2, 1, 4, 7, 4, 8, 3, 6, 4, 8], 10, by decide⟩

def timeLimits (wallClockMs : Decimal) : JailLimits where
  wallClockMs := some (.finite wallClockMs)
  memoryBytes := some (.ofInt 268435456)
  maxOutputBytes := some (.ofInt 1048576)

/-- A limit of four milliseconds. -/
theorem deadline_kept_four :
    (∀ run, Timely (timeLimits four) run → DeadlineKept (fun _ => .zero false) (timeLimits four) run) ↔
      (timeLimits four).wallMs ≤ TIMEOUT_MAX :=
  deadline_kept_iff (fun _ => .zero false) (timeLimits four) (by decide)

/-- A limit of 2147483648 milliseconds is over after one. -/
theorem deadline_replaced :
    (timeLimits pastTimeoutMax).accepted = true ∧ Timely (timeLimits pastTimeoutMax) killedAtOnce ∧
      ∀ toNumber, (runJail toNumber (timeLimits pastTimeoutMax)
          (killedAtOnce.map Moment.event)).outcome = some (exceeded (timeLimits pastTimeoutMax) 1) ∧
        settledAt killedAtOnce = some 1 ∧ killedAt killedAtOnce = [1] ∧
        ¬ DeadlineKept toNumber (timeLimits pastTimeoutMax) killedAtOnce := by
  have haccepted : (timeLimits pastTimeoutMax).accepted = true := by decide
  have hms : (timeLimits pastTimeoutMax).wallMs = (2147483648 : Nat) := by
    norm_num [JailLimits.wallMs, timeLimits, magnitude, pastTimeoutMax, digitsValue]
  have hmax : TIMEOUT_MAX < (timeLimits pastTimeoutMax).wallMs := by
    rw [hms]
    norm_num [TIMEOUT_MAX]
  have hkilled : killedAt killedAtOnce = [1] := by
    simp [killedAt, killedAtOnce, JailEvent.settles, JailEvent.isTimer]
  refine ⟨haccepted, killedAtOnce_timely rfl hmax, fun toNumber => ⟨rfl, rfl, hkilled, ?_⟩⟩
  intro hkept
  have hkill := hkept.1 1 (by simp [hkilled])
  rw [hms, Nat.floor_natCast] at hkill
  norm_num at hkill

end OpenRupiv.Sandbox
