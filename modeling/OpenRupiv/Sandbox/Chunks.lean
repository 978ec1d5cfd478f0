import OpenRupiv.Sandbox.Jail

/-!
# Chunks of output

However stdout and stderr of a jailed process are cut into chunks, and however the chunks interleave,
the call settles alike, and it settles once.
-/

namespace OpenRupiv.Sandbox

open Js

variable {toNumber : Text → Num} {limits : JailLimits} {events : List JailEvent}

/-- What the process wrote to stderr, as far as the events bring it. -/
def complained (events : List JailEvent) : List UInt8 :=
  events.flatMap fun
    | .stderr chunk => chunk
    | _ => []

theorem complained_concat (events : List JailEvent) (e : JailEvent) :
    complained (events ++ [e]) = complained events ++ complained [e] := by
  rw [complained, List.flatMap_append]
  rfl

theorem stderrBytes_eq (toNumber : Text → Num) (limits : JailLimits) (events : List JailEvent) :
    (runJail toNumber limits events).stderrBytes = (complained events).take 4096 := by
  induction events using List.reverseRecOn with
  | nil => rfl
  | append_singleton events e ih =>
    rw [runJail_concat, complained_concat]
    cases e with
    | stdout chunk =>
      simp only [Jail.step]
      split <;> simp [ih, complained]
    | stderr chunk =>
      have hchunk : complained [.stderr chunk] = chunk := by simp [complained]
      rw [hchunk]
      simp only [Jail.step]
      rw [ih, take_take_append]
    | timer =>
      simp only [Jail.step]
      split <;> simp [ih, complained]
    | exit code signal durationMs =>
      simp only [Jail.step]
      split <;> simp [ih, complained]
    | error message durationMs =>
      simp only [Jail.step]
      split <;> simp [ih, complained]

/-- A limit that an empty buffer has not reached is positive or `NaN`. -/
theorem subarray_room {limit : Option Num} (hroom : reachedBy limit 0 = false) :
    (∃ k, ∀ bytes, subarray bytes limit = bytes.take k) ∨
      (∀ bytes, subarray bytes limit = bytes) ∧ ∀ n, reachedBy limit n = false := by
  match limit with
  | none => exact .inl ⟨0, fun bytes => by simp [subarray]⟩
  | some (.infinite neg) =>
    have hneg : neg = false := by simpa [reachedBy] using hroom
    exact .inr ⟨fun bytes => by simp [subarray, hneg], fun n => by simp [reachedBy, hneg]⟩
  | some (.zero neg) => exact absurd hroom (by simp [reachedBy])
  | some (.finite d) =>
    simp only [reachedBy, Bool.or_eq_false_iff] at hroom
    exact .inl ⟨⌊magnitude d⌋₊, fun bytes => by simp [subarray, hroom.1]⟩

theorem subarray_append {limit : Option Num} (hroom : reachedBy limit 0 = false)
    (xs ys : List UInt8) : subarray (subarray xs limit ++ ys) limit = subarray (xs ++ ys) limit := by
  rcases subarray_room hroom with ⟨k, hk⟩ | ⟨hall, -⟩
  · rw [hk, hk, hk, take_take_append]
  · rw [hall, hall, hall]

theorem subarray_full {limit : Option Num} (hroom : reachedBy limit 0 = false) {xs : List UInt8}
    (hfull : reachedBy limit (subarray xs limit).length = true) (ys : List UInt8) :
    subarray (xs ++ ys) limit = subarray xs limit := by
  match limit with
  | none => exact absurd hfull (by simp [reachedBy])
  | some (.infinite neg) =>
    have hneg : neg = false := by simpa [reachedBy] using hroom
    exact absurd hfull (by simp [reachedBy, hneg])
  | some (.zero neg) => exact absurd hroom (by simp [reachedBy])
  | some (.finite d) =>
    simp only [reachedBy, Bool.or_eq_false_iff] at hroom
    simp only [reachedBy, subarray, hroom.1, Bool.false_or, decide_eq_true_eq, Bool.false_eq_true,
      if_false, List.length_take] at hfull ⊢
    have hfloor := Nat.floor_le_of_le hfull
    rw [List.take_append_of_le_length (hfloor.trans (min_le_right _ _))]

/-- With room for output, the buffer and its flag depend on what was written only. -/
theorem buffer_of_room (toNumber : Text → Num) (hroom : reachedBy limits.maxOutputBytes 0 = false)
    (events : List JailEvent) :
    (runJail toNumber limits events).stdoutBytes =
        subarray (written events) limits.maxOutputBytes ∧
      (runJail toNumber limits events).outputCapped =
        reachedBy limits.maxOutputBytes (runJail toNumber limits events).stdoutBytes.length := by
  induction events using List.reverseRecOn with
  | nil =>
    have hnil : subarray [] limits.maxOutputBytes = [] := by
      rcases subarray_room hroom with ⟨k, hk⟩ | ⟨hall, -⟩
      · rw [hk, List.take_nil]
      · exact hall []
    exact ⟨hnil.symm, hroom.symm⟩
  | append_singleton events e ih =>
    obtain ⟨hbytes, hcapped⟩ := ih
    rw [runJail_concat, written_append]
    by_cases hstdout : ∀ chunk, e ≠ .stdout chunk
    · obtain ⟨hsame, hflag, hnil⟩ := step_buffer toNumber limits hstdout
        (runJail toNumber limits events)
      rw [hsame, hflag, hnil, List.append_nil]
      exact ⟨hbytes, hcapped⟩
    · push Not at hstdout
      obtain ⟨chunk, rfl⟩ := hstdout
      have hchunk : written [.stdout chunk] = chunk := by simp [written]
      rw [hchunk]
      simp only [Jail.step]
      split
      · rename_i hfull
        refine ⟨?_, hfull.symm⟩
        rw [hbytes] at hfull ⊢
        rw [subarray_full hroom hfull]
      · rename_i hopen
        rw [hcapped, Bool.eq_false_iff.mpr hopen, Bool.false_or]
        refine ⟨?_, rfl⟩
        rw [hbytes, subarray_append hroom]

theorem reachedBy_of_zero {limit : Option Num} (h : reachedBy limit 0 = true) (n : Nat) :
    reachedBy limit n = true := by
  match limit with
  | none => exact absurd h (by simp [reachedBy])
  | some (.infinite neg) => simpa [reachedBy] using h
  | some (.zero neg) => rfl
  | some (.finite d) =>
    simp only [reachedBy, Bool.or_eq_true, decide_eq_true_eq] at h ⊢
    exact h.imp_right fun hle => hle.trans (by exact_mod_cast Nat.zero_le n)

theorem buffer_of_full (toNumber : Text → Num) (hfull : reachedBy limits.maxOutputBytes 0 = true)
    (hchunks : ∀ e ∈ events, e ≠ .stdout []) :
    (runJail toNumber limits events).stdoutBytes = [] ∧
      (runJail toNumber limits events).outputCapped = decide (written events ≠ []) := by
  induction events using List.reverseRecOn with
  | nil => exact ⟨rfl, rfl⟩
  | append_singleton events e ih =>
    obtain ⟨hbytes, hcapped⟩ := ih fun d hd => hchunks d (List.mem_append_left _ hd)
    rw [runJail_concat, written_append]
    by_cases hstdout : ∀ chunk, e ≠ .stdout chunk
    · obtain ⟨hsame, hflag, hnil⟩ := step_buffer toNumber limits hstdout
        (runJail toNumber limits events)
      rw [hsame, hflag, hnil, List.append_nil]
      exact ⟨hbytes, hcapped⟩
    · push Not at hstdout
      obtain ⟨chunk, rfl⟩ := hstdout
      have hne : chunk ≠ [] := by
        rintro rfl
        exact hchunks (.stdout []) (by simp) rfl
      simp only [Jail.step, reachedBy_of_zero hfull, if_true]
      exact ⟨hbytes, by simp [written, hne]⟩

/-- Chunks as a stream delivers them where the limit leaves no room: none is empty. -/
def Delivered (limits : JailLimits) (events : List JailEvent) : Prop :=
  reachedBy limits.maxOutputBytes 0 = true → ∀ e ∈ events, e ≠ .stdout []

/-- An outcome with another duration. -/
def JailOutcome.lasting (durationMs : Int) : JailOutcome → JailOutcome
  | .ok output _ => .ok output durationMs
  | .violation kind message _ => .violation kind message durationMs
  | .limit kind message _ => .limit kind message durationMs
  | .toolError message _ => .toolError message durationMs

theorem exitOutcome_lasting (jail : Jail) (code : Option Int) (signal : Option String) (d e : Int) :
    (exitOutcome toNumber limits jail code signal d).lasting e =
      exitOutcome toNumber limits jail code signal e := by
  simp only [exitOutcome, apply_ite (JailOutcome.lasting e)]
  simp only [JailOutcome.lasting]

theorem exitOutcome_congr {jail jail' : Jail} (hstdout : jail.stdoutBytes = jail'.stdoutBytes)
    (hstderr : jail.stderrBytes = jail'.stderrBytes) (hcapped : jail.outputCapped = jail'.outputCapped)
    (htimedOut : jail.timedOut = jail'.timedOut) (code : Option Int) (signal : Option String)
    (d : Int) :
    exitOutcome toNumber limits jail code signal d =
      exitOutcome toNumber limits jail' code signal d := by
  simp only [exitOutcome, hstdout, hstderr, hcapped, htimedOut]

theorem buffer_congr (toNumber : Text → Num) {before before' : List JailEvent}
    (hdelivered : Delivered limits before) (hdelivered' : Delivered limits before')
    (hwritten : written before = written before') :
    (runJail toNumber limits before).stdoutBytes = (runJail toNumber limits before').stdoutBytes ∧
      (runJail toNumber limits before).outputCapped =
        (runJail toNumber limits before').outputCapped := by
  cases hroom : reachedBy limits.maxOutputBytes 0 with
  | false =>
    obtain ⟨hbytes, hcapped⟩ := buffer_of_room toNumber hroom before
    obtain ⟨hbytes', hcapped'⟩ := buffer_of_room toNumber hroom before'
    rw [hcapped, hcapped', hbytes, hbytes', hwritten]
    exact ⟨rfl, rfl⟩
  | true =>
    obtain ⟨hbytes, hcapped⟩ := buffer_of_full toNumber hroom (hdelivered hroom)
    obtain ⟨hbytes', hcapped'⟩ := buffer_of_full toNumber hroom (hdelivered' hroom)
    rw [hbytes, hbytes', hcapped, hcapped', hwritten]
    exact ⟨rfl, rfl⟩

/-- What the handler of an event calls `resolve` with: those of `exit` and `error` do, unless the call
has settled. -/
def Jail.resolves (toNumber : Text → Num) (limits : JailLimits) (jail : Jail) :
    JailEvent → Option JailOutcome
  | .exit code signal durationMs =>
      if jail.outcome.isSome then none
      else some (exitOutcome toNumber limits jail code signal durationMs)
  | .error message durationMs =>
      if jail.outcome.isSome then none
      else some (.toolError (ofString "failed to spawn jail process: " ++ message) durationMs)
  | _ => none

/-- The calls of `resolve`. -/
def resolutions (toNumber : Text → Num) (limits : JailLimits) (jail : Jail) :
    List JailEvent → List JailOutcome
  | [] => []
  | e :: events =>
      (jail.resolves toNumber limits e).toList ++
        resolutions toNumber limits (jail.step toNumber limits e) events

theorem resolves_isSome {jail : Jail} (hopen : jail.outcome = none) (e : JailEvent) :
    (jail.resolves toNumber limits e).isSome = e.settles ∧
      (jail.step toNumber limits e).outcome = jail.resolves toNumber limits e := by
  cases e with
  | stdout chunk =>
    simp only [Jail.step]
    split <;> simp [Jail.resolves, hopen, JailEvent.settles]
  | stderr chunk => simp [Jail.resolves, Jail.step, hopen, JailEvent.settles]
  | timer => simp [Jail.resolves, Jail.step, hopen, JailEvent.settles]
  | exit code signal durationMs => simp [Jail.resolves, Jail.step, hopen, JailEvent.settles]
  | error message durationMs => simp [Jail.resolves, Jail.step, hopen, JailEvent.settles]

theorem resolutions_settled {jail : Jail} (h : jail.outcome.isSome = true)
    (events : List JailEvent) : resolutions toNumber limits jail events = [] := by
  induction events generalizing jail with
  | nil => rfl
  | cons e events ih =>
    have hstep : (jail.step toNumber limits e).outcome.isSome = true := by
      cases e with
      | stdout chunk =>
        simp only [Jail.step]
        split <;> exact h
      | stderr chunk => exact h
      | timer => simp only [Jail.step, h, if_true]
      | exit code signal durationMs => simp only [Jail.step, h, if_true]
      | error message durationMs => simp only [Jail.step, h, if_true]
    have hnone : jail.resolves toNumber limits e = none := by
      cases e <;> simp [Jail.resolves, h]
    rw [resolutions, hnone, ih hstep]
    rfl

theorem resolutions_open {jail : Jail} (h : jail.outcome = none) (events : List JailEvent) :
    (∀ e ∈ events, e.settles = false) ∧ resolutions toNumber limits jail events = [] ∨
      ∃ before e after, events = before ++ e :: after ∧ (∀ d ∈ before, d.settles = false) ∧
        e.settles = true ∧ resolutions toNumber limits jail events =
          ((before.foldl (Jail.step toNumber limits) jail).resolves toNumber limits e).toList := by
  induction events generalizing jail with
  | nil => exact .inl ⟨by simp, rfl⟩
  | cons e events ih =>
    obtain ⟨hsome, houtcome⟩ := @resolves_isSome toNumber limits _ h e
    cases hsettles : e.settles with
    | true =>
      refine .inr ⟨[], e, events, rfl, by simp, hsettles, ?_⟩
      rw [hsettles] at hsome
      rw [resolutions, resolutions_settled (by rw [houtcome, hsome]), List.append_nil]
      rfl
    | false =>
      rw [hsettles, Option.isSome_eq_false_iff, Option.isNone_iff_eq_none] at hsome
      rw [hsome] at houtcome
      rw [resolutions, hsome]
      rcases ih houtcome with ⟨hnone, hnil⟩ | ⟨before, d, after, rfl, hbefore, hd, hresolved⟩
      · exact .inl ⟨by simpa [hsettles] using hnone, hnil⟩
      · exact .inr ⟨e :: before, d, after, rfl, by simpa [hsettles] using hbefore, hd, hresolved⟩

/-- The outcome of a call depends on the bytes that came before its exit, on the exit and on the
timer, and the first exit or error is all that settles it. -/
theorem chunks_immaterial (toNumber : Text → Num) (limits : JailLimits) :
    (∀ before before' after after' code signal durationMs durationMs',
      (∀ e ∈ before, e.settles = false) → (∀ e ∈ before', e.settles = false) →
      Delivered limits before → Delivered limits before' →
      written before = written before' → complained before = complained before' →
      (runJail toNumber limits before).timedOut = (runJail toNumber limits before').timedOut →
      ((runJail toNumber limits (before ++ .exit code signal durationMs :: after)).outcome.map
          fun outcome => outcome.lasting 0) =
        (runJail toNumber limits (before' ++ .exit code signal durationMs' :: after')).outcome.map
          fun outcome => outcome.lasting 0) ∧
    ∀ events : List JailEvent,
      (∀ e ∈ events, e.settles = false) ∧ resolutions toNumber limits {} events = [] ∨
        ∃ before e after outcome, events = before ++ e :: after ∧
          (∀ d ∈ before, d.settles = false) ∧ e.settles = true ∧
          (runJail toNumber limits before).resolves toNumber limits e = some outcome ∧
          resolutions toNumber limits {} events = [outcome] := by
  constructor
  · intro before before' after after' code signal durationMs durationMs' hopen hopen' hdelivered
      hdelivered' hstdout hstderr htimedOut
    obtain ⟨hbytes, hcapped⟩ := buffer_congr toNumber hdelivered hdelivered' hstdout
    have herrors : (runJail toNumber limits before).stderrBytes =
        (runJail toNumber limits before').stderrBytes := by
      rw [stderrBytes_eq, stderrBytes_eq, hstderr]
    rw [outcome_of_exit hopen, outcome_of_exit hopen', Option.map_some, Option.map_some,
      exitOutcome_lasting, exitOutcome_lasting, exitOutcome_congr hbytes herrors hcapped htimedOut]
  · intro events
    rcases @resolutions_open toNumber limits {} rfl events with
      hnone | ⟨before, e, after, hevents, hbefore, hsettles, hresolved⟩
    · exact .inl hnone
    · have hopen := (@runJail_open toNumber limits _ hbefore).1
      have hsome := (@resolves_isSome toNumber limits _ hopen e).1
      rw [hsettles] at hsome
      obtain ⟨outcome, houtcome⟩ := Option.isSome_iff_exists.mp hsome
      refine .inr ⟨before, e, after, outcome, hevents, hbefore, hsettles, houtcome, ?_⟩
      change resolutions toNumber limits {} events =
        ((runJail toNumber limits before).resolves toNumber limits e).toList at hresolved
      rw [hresolved, houtcome]
      rfl

/-- An output in one chunk and in two, with an error in between. -/
theorem chunks_immaterial_true :
    ((runJail (fun _ => .zero false) (outputLimits four)
        ([.stdout (toUtf8 (ofString "tru")), .stderr [1]] ++ [.exit (some 0) none 5])).outcome.map
          fun outcome => outcome.lasting 0) =
      (runJail (fun _ => .zero false) (outputLimits four)
        ([.stdout (toUtf8 (ofString "t")), .stderr [1], .stdout (toUtf8 (ofString "ru"))] ++
          [.exit (some 0) none 6])).outcome.map fun outcome => outcome.lasting 0 :=
  (chunks_immaterial (fun _ => .zero false) (outputLimits four)).1 _ _ [] [] (some 0) none 5 6
    (by simp [JailEvent.settles]) (by simp [JailEvent.settles])
    (fun _ => by simp [show toUtf8 (ofString "tru") ≠ [] by decide])
    (fun _ => by simp [show toUtf8 (ofString "t") ≠ [] by decide,
      show toUtf8 (ofString "ru") ≠ [] by decide])
    (by decide) (by decide)
    (by rw [(runJail_open (by simp [JailEvent.settles])).2,
      (runJail_open (by simp [JailEvent.settles])).2]; rfl)

end OpenRupiv.Sandbox
