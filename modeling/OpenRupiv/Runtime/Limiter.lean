import OpenRupiv.Runtime.Records
import Mathlib.Algebra.Order.Ring.Rat
import Mathlib.Data.Rat.Floor
import Mathlib.Tactic.Linarith

/-!
# Limits on audited rejections

`createRejectedCookieLimiter` of `packages/runtime/src/auth.ts` and its copy
`createRejectedTokenLimiter` of `packages/mcp/src/rate-limit.ts`.  A rejected credential is appended
to the audit log once, and not more than so many of them in a window.
-/

namespace OpenRupiv.Runtime

/-- A number of JavaScript, as an option. -/
inductive Amount where
  | finite (q : ℚ)
  | infinite (neg : Bool)
  | nan
  deriving DecidableEq

namespace Amount

/-- `x >= amount`. -/
def reachedBy (x : ℚ) : Amount → Bool
  | .finite q => q ≤ x
  | .infinite neg => neg
  | .nan => false

/-- `amount > x`. -/
def exceeds (x : ℚ) : Amount → Bool
  | .finite q => x < q
  | .infinite neg => !neg
  | .nan => false

/-- `x + amount`. -/
def plus (x : ℚ) : Amount → Amount
  | .finite q => .finite (x + q)
  | amount => amount

/-- `n <= amount`. -/
def allows (n : Nat) : Amount → Bool
  | .finite q => n ≤ q
  | .infinite neg => !neg
  | .nan => false

end Amount

structure LimiterOptions where
  dedupTtlMs : Option Amount := none
  dedupMaxEntries : Option Amount := none
  windowMs : Option Amount := none
  windowMaxAppends : Option Amount := none

/-- What the closure holds. -/
structure Limiter where
  dedupTtlMs : Amount
  dedupMaxEntries : Amount
  windowMs : Amount
  windowMaxAppends : Amount
  /-- The hash of a credential → the time at which it expires. -/
  seen : List (String × Amount)
  windowStart : ℚ
  windowCount : Nat

def createLimiter (options : LimiterOptions) (now : ℚ) : Limiter where
  dedupTtlMs := options.dedupTtlMs.getD (.finite (5 * 60000))
  dedupMaxEntries := options.dedupMaxEntries.getD (.finite 500)
  windowMs := options.windowMs.getD (.finite 60000)
  windowMaxAppends := options.windowMaxAppends.getD (.finite 20)
  seen := []
  windowStart := now
  windowCount := 0

def createRejectedCookieLimiter (options : LimiterOptions) (now : ℚ) : Limiter :=
  createLimiter options now

def createRejectedTokenLimiter (options : LimiterOptions) (now : ℚ) : Limiter :=
  createLimiter options now

/-- A call of `shouldAppend`, with what `now()` answers in it. -/
structure CredentialCall where
  value : String
  time : ℚ
  deriving DecidableEq

namespace Limiter

/-- A window that is over gives way to a new one. -/
def roll (l : Limiter) (t : ℚ) : Limiter :=
  if l.windowMs.reachedBy (t - l.windowStart) then { l with windowStart := t, windowCount := 0 }
  else l

/-- The map with room for one more: the oldest key is dropped when it is full. -/
def room (l : Limiter) : List (String × Amount) :=
  if l.dedupMaxEntries.reachedBy l.seen.length then l.seen.tail else l.seen

def remember (l : Limiter) (hash : String) (t : ℚ) : Limiter :=
  { l with
    windowCount := l.windowCount + 1
    seen := mapSet l.room hash (l.dedupTtlMs.plus t) }

/-- The credential is remembered, and has not expired. -/
def known (l : Limiter) (hash : String) (t : ℚ) : Bool := (l.seen.lookup hash).any (Amount.exceeds t)

def shouldAppend (sha256 : String → String) (l : Limiter) (c : CredentialCall) : Bool × Limiter :=
  let hash := sha256 c.value
  if l.known hash c.time then (false, l)
  else
    let l := l.roll c.time
    if l.windowMaxAppends.reachedBy l.windowCount then (false, l)
    else (true, l.remember hash c.time)

end Limiter

/-- A limiter after some calls, and those it answered with true. -/
structure LimiterRun where
  limiter : Limiter
  appended : List CredentialCall := []

namespace LimiterRun

def step (sha256 : String → String) (r : LimiterRun) (c : CredentialCall) : LimiterRun :=
  let answer := r.limiter.shouldAppend sha256 c
  ⟨answer.2, if answer.1 then r.appended ++ [c] else r.appended⟩

end LimiterRun

/-- The calls one after the other. -/
def Limiter.run (sha256 : String → String) (l : Limiter) (calls : List CredentialCall) :
    LimiterRun :=
  calls.foldl (LimiterRun.step sha256) { limiter := l }

/-- Time does not run backwards. -/
def Timed (start : ℚ) (calls : List CredentialCall) : Prop :=
  (start :: calls.map (·.time)).Pairwise (· ≤ ·)

variable {sha256 : String → String} {l : Limiter} {c : CredentialCall} {calls : List CredentialCall}
  {start : ℚ}

@[simp] theorem Limiter.run_nil : l.run sha256 [] = ⟨l, []⟩ := rfl

@[simp] theorem Limiter.run_concat :
    l.run sha256 (calls ++ [c]) = (l.run sha256 calls).step sha256 c := by
  rw [Limiter.run, List.foldl_append]
  rfl

/-- A call is answered with false for a known credential or a full window, else it is appended. -/
theorem LimiterRun.step_cases (sha256 : String → String) (r : LimiterRun) (c : CredentialCall) :
    (r.limiter.known (sha256 c.value) c.time = true ∧ r.step sha256 c = r) ∨
      (r.limiter.known (sha256 c.value) c.time = false ∧
        r.limiter.windowMaxAppends.reachedBy (r.limiter.roll c.time).windowCount = true ∧
        r.step sha256 c = { r with limiter := r.limiter.roll c.time }) ∨
      (r.limiter.known (sha256 c.value) c.time = false ∧
        r.limiter.windowMaxAppends.reachedBy (r.limiter.roll c.time).windowCount = false ∧
        r.step sha256 c = ⟨(r.limiter.roll c.time).remember (sha256 c.value) c.time,
          r.appended ++ [c]⟩) := by
  have hmax : (r.limiter.roll c.time).windowMaxAppends = r.limiter.windowMaxAppends := by
    unfold Limiter.roll
    split <;> rfl
  unfold LimiterRun.step Limiter.shouldAppend
  dsimp only
  cases hknown : r.limiter.known (sha256 c.value) c.time with
  | true => simp
  | false =>
    rw [hmax]
    cases hfull : r.limiter.windowMaxAppends.reachedBy (r.limiter.roll c.time).windowCount with
    | true => simp
    | false => simp

section

variable (l : Limiter) (t : ℚ) (hash : String)

@[simp] theorem Limiter.roll_windowMs : (l.roll t).windowMs = l.windowMs := by
  unfold Limiter.roll
  split <;> rfl

@[simp] theorem Limiter.roll_windowMaxAppends :
    (l.roll t).windowMaxAppends = l.windowMaxAppends := by
  unfold Limiter.roll
  split <;> rfl

@[simp] theorem Limiter.roll_dedupTtlMs : (l.roll t).dedupTtlMs = l.dedupTtlMs := by
  unfold Limiter.roll
  split <;> rfl

@[simp] theorem Limiter.roll_dedupMaxEntries : (l.roll t).dedupMaxEntries = l.dedupMaxEntries := by
  unfold Limiter.roll
  split <;> rfl

@[simp] theorem Limiter.roll_seen : (l.roll t).seen = l.seen := by
  unfold Limiter.roll
  split <;> rfl

end

/-- The options stay, and time passes over the calls only. -/
structure LimiterRun.Follows (r : LimiterRun) (l : Limiter) (calls : List CredentialCall) : Prop where
  dedupTtlMs : r.limiter.dedupTtlMs = l.dedupTtlMs
  dedupMaxEntries : r.limiter.dedupMaxEntries = l.dedupMaxEntries
  windowMs : r.limiter.windowMs = l.windowMs
  windowMaxAppends : r.limiter.windowMaxAppends = l.windowMaxAppends
  windowStart : r.limiter.windowStart ∈ l.windowStart :: calls.map (·.time)
  appended : ∀ d ∈ r.appended, d ∈ calls

theorem Limiter.follows_run (sha256 : String → String) (l : Limiter) (calls : List CredentialCall) :
    (l.run sha256 calls).Follows l calls := by
  induction calls using List.reverseRecOn with
  | nil => exact ⟨rfl, rfl, rfl, rfl, List.mem_cons_self, by simp⟩
  | append_singleton calls c ih =>
    have hstart : ∀ t ∈ l.windowStart :: calls.map (·.time),
        t ∈ l.windowStart :: (calls ++ [c]).map (·.time) := by
      intro t ht
      simp only [List.map_append, List.mem_cons, List.mem_append] at ht ⊢
      tauto
    have hroll : ((l.run sha256 calls).limiter.roll c.time).windowStart ∈
        l.windowStart :: (calls ++ [c]).map (·.time) := by
      unfold Limiter.roll
      split
      · simp
      · exact hstart _ ih.windowStart
    have happended : ∀ d ∈ (l.run sha256 calls).appended, d ∈ calls ++ [c] :=
      fun d hd => List.mem_append_left _ (ih.appended d hd)
    rw [Limiter.run_concat]
    rcases LimiterRun.step_cases sha256 (l.run sha256 calls) c with
      ⟨-, heq⟩ | ⟨-, -, heq⟩ | ⟨-, -, heq⟩
    · rw [heq]
      exact ⟨ih.dedupTtlMs, ih.dedupMaxEntries, ih.windowMs, ih.windowMaxAppends,
        hstart _ ih.windowStart, happended⟩
    · rw [heq]
      exact ⟨by simp [ih.dedupTtlMs], by simp [ih.dedupMaxEntries], by simp [ih.windowMs],
        by simp [ih.windowMaxAppends], hroll, happended⟩
    · rw [heq]
      refine ⟨by simp [Limiter.remember, ih.dedupTtlMs],
        by simp [Limiter.remember, ih.dedupMaxEntries], by simp [Limiter.remember, ih.windowMs],
        by simp [Limiter.remember, ih.windowMaxAppends], hroll, ?_⟩
      intro d hd
      rcases List.mem_append.mp hd with hd | hd
      · exact happended d hd
      · exact List.mem_append_right _ hd

theorem Timed.le_time (sha256 : String → String) {l : Limiter} (h : Timed l.windowStart (calls ++ [c])) :
    (l.run sha256 calls).limiter.windowStart ≤ c.time ∧
      ∀ d ∈ (l.run sha256 calls).appended, d.time ≤ c.time := by
  have hfollows := l.follows_run sha256 calls
  have hpast : ∀ t ∈ l.windowStart :: calls.map (·.time), t ≤ c.time := by
    intro t ht
    unfold Timed at h
    rw [List.map_append, ← List.cons_append, List.pairwise_append] at h
    exact h.2.2 t ht c.time (by simp)
  refine ⟨hpast _ hfollows.windowStart, fun d hd => hpast _ ?_⟩
  exact List.mem_cons_of_mem _ (List.mem_map_of_mem (hfollows.appended d hd))

theorem Timed.init {t : ℚ} (h : Timed t (calls ++ [c])) : Timed t calls := by
  unfold Timed at h ⊢
  rw [List.map_append, ← List.cons_append, List.pairwise_append] at h
  exact h.1

/-- The time is in the half-open interval of length `windowMs` from `a`. -/
def Amount.spans (windowMs : Amount) (a t : ℚ) : Bool := a ≤ t && (windowMs.plus a).exceeds t

/-- In every interval of length `windowMs` the limiter answers true at most `windowMaxAppends`
times. -/
def CapKept (windowMs windowMaxAppends : Amount) (appended : List CredentialCall) : Prop :=
  ∀ a, windowMaxAppends.allows (appended.countP fun c => windowMs.spans a c.time) = true

theorem Amount.not_spans_of_reachedBy {windowMs : Amount} {a t u : ℚ}
    (h : windowMs.reachedBy (u - t) = true) (ht : windowMs.spans a t = true) :
    windowMs.spans a u = false := by
  cases windowMs with
  | finite q =>
    simp only [Amount.reachedBy, Amount.spans, Amount.plus, Amount.exceeds, decide_eq_true_eq,
      Bool.and_eq_true, Bool.and_eq_false_iff, decide_eq_false_iff_not] at h ht ⊢
    right
    linarith [ht.1]
  | infinite neg => simp_all [Amount.reachedBy, Amount.spans, Amount.plus, Amount.exceeds]
  | nan => simp [Amount.reachedBy] at h

/-- The amount is a number of calls, or there is no limit. -/
def Amount.Counts : Amount → Prop
  | .finite q => ∃ n : Nat, q = n
  | .infinite neg => neg = false
  | .nan => False

theorem Amount.Counts.allows_zero {amount : Amount} (h : amount.Counts) : amount.allows 0 = true := by
  cases amount with
  | finite q =>
    obtain ⟨n, rfl⟩ := h
    simp [Amount.allows]
  | infinite neg => simpa [Amount.allows, Amount.Counts] using h
  | nan => exact h.elim

theorem Amount.Counts.allows_succ {amount : Amount} (h : amount.Counts) {n : Nat}
    (hn : amount.reachedBy n = false) : amount.allows (n + 1) = true := by
  cases amount with
  | finite q =>
    obtain ⟨m, rfl⟩ := h
    simp only [Amount.reachedBy, Nat.cast_le, decide_eq_false_iff_not, not_le] at hn
    simp only [Amount.allows, Nat.cast_le, decide_eq_true_eq]
    omega
  | infinite neg => simpa [Amount.allows, Amount.Counts] using h
  | nan => exact h.elim

theorem Amount.allows_mono {amount : Amount} {m n : Nat} (hmn : m ≤ n)
    (h : amount.allows n = true) : amount.allows m = true := by
  cases amount with
  | finite q =>
    simp only [Amount.allows, decide_eq_true_eq] at h ⊢
    have hcast : (m : ℚ) ≤ n := by exact_mod_cast hmn
    linarith
  | infinite neg => exact h
  | nan => exact h

/-- A call that opens a window comes a whole window after all that was appended. -/
def LimiterRun.Spaced (sha256 : String → String) (r : LimiterRun) (c : CredentialCall) : Prop :=
  r.limiter.known (sha256 c.value) c.time = false →
    r.limiter.windowMs.reachedBy (c.time - r.limiter.windowStart) = true →
      ∀ d ∈ r.appended, r.limiter.windowMs.reachedBy (c.time - d.time) = true

/-- The appended calls are those of ended windows and those of the open one. -/
structure LimiterRun.Windowed (r : LimiterRun) (ended opened : List CredentialCall) : Prop where
  appended : r.appended = ended ++ opened
  length : opened.length = r.limiter.windowCount
  fits : r.limiter.windowMaxAppends.allows r.limiter.windowCount = true
  since : ∀ d ∈ opened, r.limiter.windowStart ≤ d.time
  before : ∀ d ∈ ended, r.limiter.windowMs.reachedBy (r.limiter.windowStart - d.time) = true
  cap : CapKept r.limiter.windowMs r.limiter.windowMaxAppends ended

theorem Amount.reachedBy_mono {amount : Amount} {x y : ℚ} (hxy : x ≤ y)
    (h : amount.reachedBy x = true) : amount.reachedBy y = true := by
  cases amount with
  | finite q =>
    simp only [Amount.reachedBy, decide_eq_true_eq] at h ⊢
    linarith
  | infinite neg => exact h
  | nan => exact h

theorem LimiterRun.Windowed.capKept {r : LimiterRun} {ended opened : List CredentialCall}
    (h : r.Windowed ended opened) :
    CapKept r.limiter.windowMs r.limiter.windowMaxAppends r.appended := by
  intro a
  rw [h.appended, List.countP_append]
  by_cases hended : ∃ d ∈ ended, r.limiter.windowMs.spans a d.time = true
  · obtain ⟨d, hd, hspans⟩ := hended
    have hopened : opened.countP (fun c => r.limiter.windowMs.spans a c.time) = 0 := by
      rw [List.countP_eq_zero]
      intro e he
      have hapart : r.limiter.windowMs.reachedBy (e.time - d.time) = true :=
        Amount.reachedBy_mono (by linarith [h.since e he]) (h.before d hd)
      simp [Amount.not_spans_of_reachedBy hapart hspans]
    rw [hopened, Nat.add_zero]
    exact h.cap a
  · have hnone : ended.countP (fun c => r.limiter.windowMs.spans a c.time) = 0 := by
      rw [List.countP_eq_zero]
      intro d hd hspans
      exact hended ⟨d, hd, hspans⟩
    rw [hnone, Nat.zero_add]
    refine Amount.allows_mono ?_ h.fits
    rw [← h.length]
    exact List.countP_le_length

theorem LimiterRun.Windowed.step {r : LimiterRun} {ended opened : List CredentialCall}
    (h : r.Windowed ended opened) (hmax : r.limiter.windowMaxAppends.Counts)
    (hspaced : r.Spaced sha256 c) (hstart : r.limiter.windowStart ≤ c.time) :
    ∃ ended opened, (r.step sha256 c).Windowed ended opened := by
  have hroll : r.limiter.known (sha256 c.value) c.time = false → ∃ ended opened,
      LimiterRun.Windowed { r with limiter := r.limiter.roll c.time } ended opened ∧
        (r.limiter.roll c.time).windowStart ≤ c.time := by
    intro hknown
    unfold Limiter.roll
    split
    · rename_i hover
      refine ⟨r.appended, [], ⟨by simp, rfl, hmax.allows_zero, by simp, ?_, h.capKept⟩, le_refl _⟩
      exact hspaced hknown hover
    · exact ⟨ended, opened, h, hstart⟩
  rcases LimiterRun.step_cases sha256 r c with
    ⟨-, heq⟩ | ⟨hknown, -, heq⟩ | ⟨hknown, hfull, heq⟩
  · rw [heq]
    exact ⟨ended, opened, h⟩
  · rw [heq]
    obtain ⟨ended', opened', hwindowed, -⟩ := hroll hknown
    exact ⟨ended', opened', hwindowed⟩
  · rw [heq]
    obtain ⟨ended', opened', hwindowed, hle⟩ := hroll hknown
    refine ⟨ended', opened' ++ [c], ?_⟩
    have hlength := hwindowed.length
    have happended := hwindowed.appended
    have hsince := hwindowed.since
    dsimp only at hlength happended hsince
    constructor
    · rw [happended, List.append_assoc]
    · rw [List.length_append, hlength]
      rfl
    · have hsucc := hmax.allows_succ hfull
      simpa [Limiter.remember] using hsucc
    · intro d hd
      rcases List.mem_append.mp hd with hd | hd
      · exact hsince d hd
      · rw [List.mem_singleton.mp hd]
        exact hle
    · exact hwindowed.before
    · exact hwindowed.cap

theorem Limiter.windowed_run {l : Limiter} (hmax : l.windowMaxAppends.Counts)
    (hcount : l.windowCount = 0) (htimed : Timed l.windowStart calls)
    (hspaced : ∀ before c after, calls = before ++ c :: after →
      (l.run sha256 before).Spaced sha256 c) :
    ∃ ended opened, (l.run sha256 calls).Windowed ended opened := by
  induction calls using List.reverseRecOn with
  | nil =>
    refine ⟨[], [], ⟨rfl, ?_, ?_, by simp, by simp, ?_⟩⟩
    · exact hcount.symm
    · rw [Limiter.run_nil, hcount]
      exact hmax.allows_zero
    · intro a
      exact hmax.allows_zero
  | append_singleton calls c ih =>
    obtain ⟨ended, opened, hwindowed⟩ := ih htimed.init fun before d after heq =>
      hspaced before d (after ++ [c]) (by simp [heq])
    rw [Limiter.run_concat]
    refine hwindowed.step ?_ (hspaced calls c [] rfl) (htimed.le_time sha256).1
    rwa [(l.follows_run sha256 calls).windowMaxAppends]

/-- The options of a limiter that no sequence of calls takes over its cap: it has no cap, or answers
true to nothing, or has empty intervals, or never opens a second window. -/
def KeepsCap (windowMs windowMaxAppends : Amount) : Prop :=
  windowMaxAppends.allows 0 = true ∧
    (windowMaxAppends = .infinite false ∨ windowMaxAppends.reachedBy 0 = true ∨
      windowMs.exceeds 0 = false ∨ windowMs = .infinite false ∧ windowMaxAppends.Counts)

theorem Amount.not_spans_of_empty {windowMs : Amount} (h : windowMs.exceeds 0 = false) (a t : ℚ) :
    windowMs.spans a t = false := by
  cases windowMs with
  | finite q =>
    simp only [Amount.exceeds, decide_eq_false_iff_not, not_lt] at h
    simp only [Amount.spans, Amount.plus, Amount.exceeds, Bool.and_eq_false_iff,
      decide_eq_false_iff_not, not_lt]
    by_cases hat : a ≤ t
    · exact .inr (by linarith)
    · exact .inl hat
  | infinite neg => simp_all [Amount.spans, Amount.plus, Amount.exceeds]
  | nan => simp [Amount.spans, Amount.plus, Amount.exceeds]

theorem Limiter.appended_eq_nil {l : Limiter} (h : l.windowMaxAppends.reachedBy 0 = true)
    (calls : List CredentialCall) : (l.run sha256 calls).appended = [] := by
  induction calls using List.reverseRecOn with
  | nil => rfl
  | append_singleton calls c ih =>
    rw [Limiter.run_concat]
    rcases LimiterRun.step_cases sha256 (l.run sha256 calls) c with
      ⟨-, heq⟩ | ⟨-, -, heq⟩ | ⟨-, hfull, -⟩
    · rw [heq, ih]
    · rw [heq, ih]
    · rw [(l.follows_run sha256 calls).windowMaxAppends] at hfull
      rw [Amount.reachedBy_mono (Nat.cast_nonneg _) h] at hfull
      exact absurd hfull (by simp)

theorem KeepsCap.capKept {l : Limiter} (h : KeepsCap l.windowMs l.windowMaxAppends)
    (hcount : l.windowCount = 0) (htimed : Timed l.windowStart calls) :
    CapKept l.windowMs l.windowMaxAppends (l.run sha256 calls).appended := by
  obtain ⟨hzero, hunlimited | hnone | hempty | ⟨hwindow, hcounts⟩⟩ := h
  · intro a
    rw [hunlimited]
    rfl
  · intro a
    rw [Limiter.appended_eq_nil hnone]
    exact hzero
  · intro a
    simp only [Amount.not_spans_of_empty hempty]
    simpa using hzero
  · have hspaced : ∀ before c after, calls = before ++ c :: after →
        (l.run sha256 before).Spaced sha256 c := by
      intro before c after _ _ hover
      rw [(l.follows_run sha256 before).windowMs, hwindow] at hover
      exact absurd hover (by simp [Amount.reachedBy])
    obtain ⟨ended, opened, hwindowed⟩ := Limiter.windowed_run hcounts hcount htimed hspaced
    have hcap := hwindowed.capKept
    rwa [(l.follows_run sha256 calls).windowMs, (l.follows_run sha256 calls).windowMaxAppends] at hcap

/-- As many different credentials at one time. -/
def burst (n : Nat) (t : ℚ) : List CredentialCall :=
  (List.range n).map fun i => ⟨String.ofList (List.replicate i 'x'), t⟩

theorem burst_succ (n : Nat) (t : ℚ) :
    burst (n + 1) t = burst n t ++ [⟨String.ofList (List.replicate n 'x'), t⟩] := by
  simp [burst, List.range_succ]

theorem Limiter.known_eq_false {l : Limiter} {hash : String} {t : ℚ}
    (h : ∀ e ∈ l.seen, e.1 ≠ hash) : l.known hash t = false := by
  have hnone : l.seen.lookup hash = none := by
    apply List.lookup_eq_none_iff.mpr
    intro e he
    simpa using (h e he).symm
  rw [Limiter.known, hnone]
  rfl

theorem Limiter.mem_room {l : Limiter} {e : String × Amount} (h : e ∈ l.room) : e ∈ l.seen := by
  unfold Limiter.room at h
  split at h
  · exact List.mem_of_mem_tail h
  · exact h

theorem Limiter.seen_run {l : Limiter} (hseen : l.seen = []) (calls : List CredentialCall) :
    ∀ e ∈ (l.run sha256 calls).limiter.seen, ∃ c ∈ calls, e.1 = sha256 c.value := by
  induction calls using List.reverseRecOn with
  | nil => simp [hseen]
  | append_singleton calls c ih =>
    have hpast : ∀ e ∈ (l.run sha256 calls).limiter.seen,
        ∃ d ∈ calls ++ [c], e.1 = sha256 d.value := by
      intro e he
      obtain ⟨d, hd, heq⟩ := ih e he
      exact ⟨d, List.mem_append_left _ hd, heq⟩
    rw [Limiter.run_concat]
    rcases LimiterRun.step_cases sha256 (l.run sha256 calls) c with
      ⟨-, heq⟩ | ⟨-, -, heq⟩ | ⟨-, -, heq⟩
    · rw [heq]
      exact hpast
    · rw [heq]
      simpa using hpast
    · rw [heq]
      intro e he
      rcases mem_mapSet he with he | rfl
      · have hroom := Limiter.mem_room he
        rw [Limiter.roll_seen] at hroom
        exact hpast e hroom
      · exact ⟨c, by simp, rfl⟩

theorem Limiter.step_fresh {l : Limiter} (hinj : Function.Injective sha256) (hseen : l.seen = [])
    (hfresh : ∀ d ∈ calls, d.value ≠ c.value)
    (hroom : (l.run sha256 calls).limiter.windowMaxAppends.reachedBy
      ((l.run sha256 calls).limiter.roll c.time).windowCount = false) :
    (l.run sha256 calls).step sha256 c =
      ⟨((l.run sha256 calls).limiter.roll c.time).remember (sha256 c.value) c.time,
        (l.run sha256 calls).appended ++ [c]⟩ := by
  have hknown : (l.run sha256 calls).limiter.known (sha256 c.value) c.time = false := by
    apply Limiter.known_eq_false
    intro e he heq
    obtain ⟨d, hd, hhash⟩ := Limiter.seen_run hseen calls e he
    exact hfresh d hd (hinj (hhash.symm.trans heq))
  rcases LimiterRun.step_cases sha256 (l.run sha256 calls) c with
    ⟨h, -⟩ | ⟨-, h, -⟩ | ⟨-, -, h⟩
  · rw [hknown] at h
    exact absurd h (by simp)
  · rw [hroom] at h
    exact absurd h (by simp)
  · exact h

theorem Limiter.run_burst {l : Limiter} {t : ℚ} (hinj : Function.Injective sha256)
    (hseen : l.seen = []) (hcount : l.windowCount = 0)
    (hopen : l.windowMs.reachedBy (t - l.windowStart) = false) {n : Nat}
    (hroom : ∀ i < n, l.windowMaxAppends.reachedBy i = false) :
    (l.run sha256 (burst n t)).appended = burst n t ∧
      (l.run sha256 (burst n t)).limiter.windowStart = l.windowStart ∧
      (l.run sha256 (burst n t)).limiter.windowCount = n := by
  induction n with
  | zero => exact ⟨rfl, rfl, hcount⟩
  | succ n ih =>
    obtain ⟨happended, hstart, hn⟩ := ih fun i hi => hroom i (by omega)
    have hfollows := l.follows_run sha256 (burst n t)
    have hroll : (l.run sha256 (burst n t)).limiter.roll t =
        (l.run sha256 (burst n t)).limiter := by
      rw [Limiter.roll, if_neg]
      rw [hfollows.windowMs, hstart, hopen]
      simp
    have hfresh : ∀ d ∈ burst n t, d.value ≠ String.ofList (List.replicate n 'x') := by
      intro d hd heq
      obtain ⟨i, hi, rfl⟩ := List.mem_map.mp hd
      have hlength := congrArg List.length (String.ofList_injective heq)
      simp only [List.length_replicate] at hlength
      exact absurd (List.mem_range.mp hi) (by omega)
    have hstep := Limiter.step_fresh hinj hseen
      (c := ⟨String.ofList (List.replicate n 'x'), t⟩) hfresh (by
        rw [hroll, hfollows.windowMaxAppends, hn]
        exact hroom n (by omega))
    rw [hroll] at hstep
    rw [burst_succ, Limiter.run_concat, hstep, happended]
    exact ⟨rfl, hstart, by simp [Limiter.remember, hn]⟩

theorem timed_burst {start t : ℚ} (h : start ≤ t) (n : Nat) : Timed start (burst n t) := by
  have htimes : (burst n t).map (·.time) = List.replicate n t := by
    simp [burst, List.eq_replicate_iff]
  rw [Timed, htimes, List.pairwise_cons]
  refine ⟨fun u hu => ?_, List.pairwise_replicate.mpr (.inr (le_refl t))⟩
  rw [(List.mem_replicate.mp hu).2]
  exact h

theorem countP_burst {windowMs : Amount} {a t : ℚ} (h : windowMs.spans a t = true) (n : Nat) :
    (burst n t).countP (fun c => windowMs.spans a c.time) = n := by
  have hall : ∀ c ∈ burst n t, windowMs.spans a c.time = true := by
    intro c hc
    obtain ⟨i, -, rfl⟩ := List.mem_map.mp hc
    exact h
  rw [List.countP_eq_length.mpr hall]
  simp [burst]

/-- A burst at the end of the first window and a call that opens the second one are a window's
length apart at most. -/
theorem exists_exceeded {l : Limiter} (hinj : Function.Injective sha256) (hseen : l.seen = [])
    (hcount : l.windowCount = 0) {w q : ℚ} (hw : l.windowMs = .finite w) (hpos : 0 < w)
    (hq : l.windowMaxAppends = .finite q) (hqpos : 0 < q) :
    ∃ calls, Timed l.windowStart calls ∧
      ¬CapKept l.windowMs l.windowMaxAppends (l.run sha256 calls).appended := by
  let t := l.windowStart + w / 2
  let last : CredentialCall := ⟨String.ofList (List.replicate ⌈q⌉₊ 'x'), l.windowStart + w⟩
  have hopen : l.windowMs.reachedBy (t - l.windowStart) = false := by
    simp only [hw, Amount.reachedBy, decide_eq_false_iff_not, not_le, t]
    linarith
  have hroom : ∀ i < ⌈q⌉₊, l.windowMaxAppends.reachedBy i = false := by
    intro i hi
    simp only [hq, Amount.reachedBy, decide_eq_false_iff_not, not_le]
    exact Nat.lt_ceil.mp hi
  obtain ⟨happended, hstart, -⟩ := Limiter.run_burst hinj hseen hcount hopen hroom
  have hfollows := l.follows_run sha256 (burst ⌈q⌉₊ t)
  have hroll : (l.run sha256 (burst ⌈q⌉₊ t)).limiter.windowMs.reachedBy
      (last.time - (l.run sha256 (burst ⌈q⌉₊ t)).limiter.windowStart) = true := by
    rw [hfollows.windowMs, hstart, hw]
    simp [Amount.reachedBy, last]
  have hfresh : ∀ d ∈ burst ⌈q⌉₊ t, d.value ≠ last.value := by
    intro d hd heq
    obtain ⟨i, hi, rfl⟩ := List.mem_map.mp hd
    have hlength := congrArg List.length (String.ofList_injective heq)
    simp only [List.length_replicate] at hlength
    exact absurd (List.mem_range.mp hi) (by omega)
  have hstep := Limiter.step_fresh hinj hseen (c := last) hfresh (by
    rw [Limiter.roll, if_pos hroll, hfollows.windowMaxAppends, hq]
    simpa [Amount.reachedBy] using hqpos)
  refine ⟨burst ⌈q⌉₊ t ++ [last], ?_, ?_⟩
  · have htimed := timed_burst (show l.windowStart ≤ t by simp only [t]; linarith) ⌈q⌉₊
    unfold Timed at htimed ⊢
    rw [List.map_append, ← List.cons_append, List.pairwise_append]
    refine ⟨htimed, by simp, fun u hu v hv => ?_⟩
    obtain rfl : v = last.time := by simpa using hv
    rcases List.mem_cons.mp hu with rfl | hu
    · simp only [last]
      linarith
    · obtain ⟨d, hd, rfl⟩ := List.mem_map.mp hu
      obtain ⟨i, -, rfl⟩ := List.mem_map.mp hd
      simp only [last, t]
      linarith
  · intro hcap
    have hspans : l.windowMs.spans t t = true := by
      simp only [hw, Amount.spans, Amount.plus, Amount.exceeds, le_refl, decide_true, Bool.true_and,
        decide_eq_true_eq]
      linarith
    have hlast : l.windowMs.spans t last.time = true := by
      simp only [hw, Amount.spans, Amount.plus, Amount.exceeds, Bool.and_eq_true, decide_eq_true_eq,
        t, last]
      constructor <;> linarith
    have hmany := hcap t
    rw [Limiter.run_concat, hstep, happended, List.countP_append, countP_burst hspans] at hmany
    simp only [List.countP_singleton, hlast, if_true, hq, Amount.allows, decide_eq_true_eq] at hmany
    have hceil := Nat.le_ceil q
    push_cast at hmany
    linarith

theorem counts_of_capKept {l : Limiter} (hinj : Function.Injective sha256) (hseen : l.seen = [])
    (hcount : l.windowCount = 0) (hwindow : l.windowMs = .infinite false) {q : ℚ}
    (hq : l.windowMaxAppends = .finite q)
    (h : ∀ calls, Timed l.windowStart calls →
      CapKept l.windowMs l.windowMaxAppends (l.run sha256 calls).appended) :
    l.windowMaxAppends.Counts := by
  have hopen : l.windowMs.reachedBy (l.windowStart - l.windowStart) = false := by
    simp [hwindow, Amount.reachedBy]
  have hroom : ∀ i < ⌈q⌉₊, l.windowMaxAppends.reachedBy i = false := by
    intro i hi
    simp only [hq, Amount.reachedBy, decide_eq_false_iff_not, not_le]
    exact Nat.lt_ceil.mp hi
  obtain ⟨happended, -⟩ := Limiter.run_burst hinj hseen hcount hopen hroom
  have hmany := h _ (timed_burst (le_refl l.windowStart) ⌈q⌉₊) l.windowStart
  rw [happended, countP_burst (by simp [hwindow, Amount.spans, Amount.plus, Amount.exceeds]), hq]
    at hmany
  simp only [Amount.allows, decide_eq_true_eq] at hmany
  rw [hq]
  exact ⟨⌈q⌉₊, le_antisymm (Nat.le_ceil q) hmany⟩

theorem keepsCap_of_capKept {l : Limiter} (hinj : Function.Injective sha256) (hseen : l.seen = [])
    (hcount : l.windowCount = 0)
    (h : ∀ calls, Timed l.windowStart calls →
      CapKept l.windowMs l.windowMaxAppends (l.run sha256 calls).appended) :
    KeepsCap l.windowMs l.windowMaxAppends := by
  have hzero : l.windowMaxAppends.allows 0 = true := h [] (by simp [Timed]) 0
  refine ⟨hzero, ?_⟩
  cases hmax : l.windowMaxAppends with
  | nan => simp [hmax, Amount.allows] at hzero
  | infinite neg =>
    rw [hmax] at hzero
    exact .inl (by simpa [Amount.allows] using hzero)
  | finite q =>
    by_cases hq : 0 < q
    · cases hwindow : l.windowMs with
      | nan => exact .inr (.inr (.inl rfl))
      | infinite neg =>
        cases neg with
        | true => exact .inr (.inr (.inl rfl))
        | false =>
          refine .inr (.inr (.inr ⟨rfl, ?_⟩))
          rw [← hmax]
          exact counts_of_capKept hinj hseen hcount hwindow hmax h
      | finite w =>
        by_cases hw : 0 < w
        · obtain ⟨calls, htimed, hcap⟩ := exists_exceeded hinj hseen hcount hwindow hw hmax hq
          exact absurd (h calls htimed) hcap
        · exact .inr (.inr (.inl (by simpa [Amount.exceeds] using hw)))
    · exact .inr (.inl (by simpa [Amount.reachedBy] using hq))

/-- The cap holds in every run exactly for limiters that have no use for it, and in a run of any
limiter whose windows open a window's length after all that was appended. -/
theorem rolling_cap_kept_iff (hinj : Function.Injective sha256) (options : LimiterOptions) :
    ∀ create ∈ [createRejectedCookieLimiter, createRejectedTokenLimiter], ∀ start : ℚ,
      ((∀ calls, Timed start calls →
        CapKept (create options start).windowMs (create options start).windowMaxAppends
          ((create options start).run sha256 calls).appended) ↔
        KeepsCap (create options start).windowMs (create options start).windowMaxAppends) ∧
      ∀ calls, Timed start calls → (create options start).windowMaxAppends.Counts →
        (∀ before c after, calls = before ++ c :: after →
          ((create options start).run sha256 before).Spaced sha256 c) →
        CapKept (create options start).windowMs (create options start).windowMaxAppends
          ((create options start).run sha256 calls).appended := by
  have hboth : ∀ create ∈ [createRejectedCookieLimiter, createRejectedTokenLimiter],
      create = createLimiter := by
    intro create hcreate
    simp only [List.mem_cons, List.not_mem_nil, or_false] at hcreate
    rcases hcreate with rfl | rfl
    · rfl
    · rfl
  intro create hcreate start
  rw [hboth create hcreate]
  refine ⟨⟨fun h => keepsCap_of_capKept hinj rfl rfl h, fun h calls htimed =>
    h.capKept rfl htimed⟩, ?_⟩
  intro calls htimed hcounts hspaced
  obtain ⟨ended, opened, hwindowed⟩ := Limiter.windowed_run hcounts rfl htimed hspaced
  have hcap := hwindowed.capKept
  have hfollows := (createLimiter options start).follows_run sha256 calls
  rwa [hfollows.windowMs, hfollows.windowMaxAppends] at hcap

/-- Twenty rejections at the end of a minute and one at the start of the next. -/
theorem rolling_cap_exceeded :
    ¬∀ calls, Timed 0 calls → CapKept (createRejectedCookieLimiter {} 0).windowMs
      (createRejectedCookieLimiter {} 0).windowMaxAppends
      ((createRejectedCookieLimiter {} 0).run id calls).appended := by
  intro h
  have hcap := h (burst 20 59999 ++ [⟨"y", 60000⟩]) (by
    unfold Timed
    decide +kernel) 59999
  exact absurd hcap (by decide +kernel)

/-- One append in a window. -/
def single : LimiterOptions := { windowMaxAppends := some (.finite 1) }

/-- The second rejection is over the cap, and the third opens a window of its own. -/
def spread : List CredentialCall := [⟨"x", 0⟩, ⟨"y", 1⟩, ⟨"z", 60000⟩]

theorem rolling_cap_kept_single :
    ((createRejectedCookieLimiter single 0).run id spread).appended = [⟨"x", 0⟩, ⟨"z", 60000⟩] ∧
      CapKept (createRejectedCookieLimiter single 0).windowMs
        (createRejectedCookieLimiter single 0).windowMaxAppends
        ((createRejectedCookieLimiter single 0).run id spread).appended := by
  have htimed : Timed 0 spread := by
    unfold Timed
    decide +kernel
  have hspaced : ∀ before c after, spread = before ++ c :: after →
      ((createRejectedCookieLimiter single 0).run id before).Spaced id c := by
    intro before c after h
    rcases before with _ | ⟨x, _ | ⟨y, _ | ⟨z, before⟩⟩⟩
    all_goals
      simp only [spread, List.nil_append, List.cons_append, List.cons.injEq] at h
    · obtain ⟨rfl, -⟩ := h
      unfold LimiterRun.Spaced
      decide +kernel
    · obtain ⟨rfl, rfl, -⟩ := h
      unfold LimiterRun.Spaced
      decide +kernel
    · obtain ⟨rfl, rfl, rfl, -⟩ := h
      unfold LimiterRun.Spaced
      decide +kernel
    · simp at h
  refine ⟨by decide +kernel, ?_⟩
  exact (rolling_cap_kept_iff Function.injective_id single createRejectedCookieLimiter
    List.mem_cons_self 0).2 spread htimed ⟨1, by decide⟩ hspaced
end OpenRupiv.Runtime
