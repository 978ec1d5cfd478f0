import OpenRupiv.Runtime.Limiter

/-!
# What a limiter remembers

A rejected credential is appended once for each time to live, as long as the limiter drops expired
entries only.  It does so unless an expired entry is renewed: a renewed entry keeps its old place in
the map, and is dropped from there while it is alive.
-/

namespace OpenRupiv.Runtime

variable {sha256 : String → String} {l : Limiter} {r : LimiterRun} {c : CredentialCall}
  {calls : List CredentialCall} {start : ℚ}

/-- The credential is not known, and the window has room. -/
def LimiterRun.LetsThrough (sha256 : String → String) (r : LimiterRun) (c : CredentialCall) : Prop :=
  r.limiter.known (sha256 c.value) c.time = false ∧
    r.limiter.windowMaxAppends.reachedBy (r.limiter.roll c.time).windowCount = false

def LimiterRun.DropsExpired (sha256 : String → String) (r : LimiterRun) (c : CredentialCall) : Prop :=
  r.LetsThrough sha256 c → r.limiter.dedupMaxEntries.reachedBy r.limiter.seen.length = true →
    ∀ e ∈ r.limiter.seen.head?, e.2.exceeds c.time = false

/-- A call that is let through does not find an old entry of its credential. -/
def LimiterRun.Renews (sha256 : String → String) (r : LimiterRun) (c : CredentialCall) : Prop :=
  r.LetsThrough sha256 c ∧ sha256 c.value ∈ r.limiter.room.map Prod.fst

/-- No credential is appended twice within its time to live. -/
def OncePerTtl (ttl : Amount) (appended : List CredentialCall) : Prop :=
  appended.Pairwise fun c d => c.value = d.value → (ttl.plus c.time).exceeds d.time = false

theorem Amount.exceeds_antitone {amount : Amount} {t u : ℚ} (htu : t ≤ u)
    (h : amount.exceeds u = true) : amount.exceeds t = true := by
  cases amount with
  | finite q =>
    simp only [Amount.exceeds, decide_eq_true_eq] at h ⊢
    linarith
  | infinite neg => exact h
  | nan => exact h

theorem Amount.plus_exceeds {amount : Amount} {t u v : ℚ} (htu : t ≤ u)
    (h : (amount.plus t).exceeds v = true) : (amount.plus u).exceeds v = true := by
  cases amount with
  | finite q =>
    simp only [Amount.plus, Amount.exceeds, decide_eq_true_eq] at h ⊢
    linarith
  | infinite neg => exact h
  | nan => exact h

/-- Whatever was appended less than a time to live ago is remembered. -/
def LimiterRun.Remembers (sha256 : String → String) (r : LimiterRun) (now : ℚ) : Prop :=
  ∀ d ∈ r.appended, ∀ t, now ≤ t → (r.limiter.dedupTtlMs.plus d.time).exceeds t = true →
    r.limiter.known (sha256 d.value) t = true

theorem Limiter.known_room {l : Limiter} {hash : String} {t : ℚ}
    (hdrops : l.dedupMaxEntries.reachedBy l.seen.length = true →
      ∀ e ∈ l.seen.head?, e.2.exceeds t = false) (h : l.known hash t = true) :
    (l.room.lookup hash).any (Amount.exceeds t) = true := by
  unfold Limiter.room
  split
  · rename_i hfull
    unfold Limiter.known at h
    cases hseen : l.seen with
    | nil => simp [hseen] at h
    | cons e rest =>
      rw [hseen, List.lookup_cons] at h
      rw [List.tail_cons]
      -- the dropped entry has expired, so it is not the one that is known
      split at h
      · have hexpired := hdrops hfull e (by simp [hseen])
        rw [Option.any_some, hexpired] at h
        exact absurd h (by simp)
      · exact h
  · exact h

theorem LimiterRun.Remembers.step {now : ℚ} (h : r.Remembers sha256 now) (hnow : now ≤ c.time)
    (hpast : ∀ d ∈ r.appended, d.time ≤ c.time) (hdrops : r.DropsExpired sha256 c) :
    (r.step sha256 c).Remembers sha256 c.time := by
  rcases r.step_cases sha256 c with ⟨-, heq⟩ | ⟨-, -, heq⟩ | ⟨hknown, hfull, heq⟩
  · rw [heq]
    exact fun d hd t ht halive => h d hd t (hnow.trans ht) halive
  · rw [heq]
    intro d hd t ht halive
    rw [Limiter.roll_dedupTtlMs] at halive
    rw [Limiter.known, Limiter.roll_seen]
    exact h d hd t (hnow.trans ht) halive
  · rw [heq]
    intro d hd t ht halive
    have hroom : (r.limiter.roll c.time).room = r.limiter.room := by
      unfold Limiter.room
      rw [Limiter.roll_seen, Limiter.roll_dedupMaxEntries]
    simp only [Limiter.remember, Limiter.roll_dedupTtlMs] at halive
    simp only [Limiter.known, Limiter.remember, Limiter.roll_dedupTtlMs, hroom, lookup_mapSet]
    have htime : d.time ≤ c.time := by
      rcases List.mem_append.mp hd with hd | hd
      · exact hpast d hd
      · rw [List.mem_singleton.mp hd]
    split
    · exact Amount.plus_exceeds htime halive
    · rename_i hne
      have hd' : d ∈ r.appended := by
        rcases List.mem_append.mp hd with hd | hd
        · exact hd
        · rw [List.mem_singleton.mp hd] at hne
          exact absurd rfl hne
      have hlive := h d hd' t (hnow.trans ht) halive
      refine Limiter.known_room (fun hmax e he => ?_) hlive
      have hexpired := hdrops ⟨hknown, hfull⟩ hmax e he
      cases hexceeds : e.2.exceeds t with
      | false => rfl
      | true =>
        rw [Amount.exceeds_antitone ht hexceeds] at hexpired
        exact absurd hexpired (by simp)

/-- In a run that drops expired entries only, no credential is appended twice in a time to live. -/
theorem Limiter.oncePerTtl_run (htimed : Timed l.windowStart calls)
    (hdrops : ∀ before c after, calls = before ++ c :: after →
      (l.run sha256 before).DropsExpired sha256 c) :
    OncePerTtl l.dedupTtlMs (l.run sha256 calls).appended ∧
      ∀ now, (∀ t ∈ l.windowStart :: calls.map (·.time), t ≤ now) →
        (l.run sha256 calls).Remembers sha256 now := by
  induction calls using List.reverseRecOn with
  | nil => exact ⟨List.Pairwise.nil, by simp [LimiterRun.Remembers]⟩
  | append_singleton calls c ih =>
    obtain ⟨honce, hremembers⟩ := ih htimed.init fun before d after heq =>
      hdrops before d (after ++ [c]) (by simp [heq])
    have hfollows := l.follows_run sha256 calls
    have hpast := htimed.le_time sha256
    have hnow : ∀ t ∈ l.windowStart :: calls.map (·.time), t ≤ c.time := by
      intro t ht
      unfold Timed at htimed
      rw [List.map_append, ← List.cons_append, List.pairwise_append] at htimed
      exact htimed.2.2 t ht c.time (by simp)
    have hstep := (hremembers c.time hnow).step (le_refl _) hpast.2 (hdrops calls c [] rfl)
    rw [Limiter.run_concat]
    refine ⟨?_, fun now hlast d hd t ht halive => ?_⟩
    · rcases (l.run sha256 calls).step_cases sha256 c with
        ⟨-, heq⟩ | ⟨-, -, heq⟩ | ⟨hknown, -, heq⟩
      · rw [heq]
        exact honce
      · rw [heq]
        exact honce
      · rw [heq]
        unfold OncePerTtl
        rw [List.pairwise_append]
        refine ⟨honce, List.pairwise_singleton _ _, fun d hd e he hvalue => ?_⟩
        rw [List.mem_singleton.mp he] at hvalue ⊢
        -- an entry that is alive would have been known
        cases halive : (l.dedupTtlMs.plus d.time).exceeds c.time with
        | false => rfl
        | true =>
          rw [← hfollows.dedupTtlMs] at halive
          have hlive := hremembers c.time hnow d hd c.time (le_refl _) halive
          rw [hvalue, hknown] at hlive
          exact absurd hlive (by simp)
    · exact hstep d hd t ((hlast c.time (by simp)).trans ht) halive

theorem length_mapSet_le {α : Type} (m : List (String × α)) (k : String) (v : α) :
    (mapSet m k v).length ≤ m.length + 1 := by
  unfold mapSet
  split
  · simp
  · simp

theorem Limiter.length_seen_le {n : Nat} (hmax : l.dedupMaxEntries = .finite (n + 1))
    (hseen : l.seen.length ≤ n + 1) (calls : List CredentialCall) :
    (l.run sha256 calls).limiter.seen.length ≤ n + 1 := by
  induction calls using List.reverseRecOn with
  | nil => exact hseen
  | append_singleton calls c ih =>
    have hfollows := l.follows_run sha256 calls
    rw [Limiter.run_concat]
    rcases (l.run sha256 calls).step_cases sha256 c with
      ⟨-, heq⟩ | ⟨-, -, heq⟩ | ⟨-, -, heq⟩
    · rw [heq]
      exact ih
    · rw [heq]
      simpa using ih
    · rw [heq]
      have hroom : ((l.run sha256 calls).limiter.roll c.time).room.length ≤ n := by
        unfold Limiter.room
        rw [Limiter.roll_dedupMaxEntries, hfollows.dedupMaxEntries, hmax, Limiter.roll_seen]
        split
        · rw [List.length_tail]
          omega
        · rename_i hfull
          simp only [Amount.reachedBy, decide_eq_true_eq, not_le] at hfull
          have hlt : (l.run sha256 calls).limiter.seen.length < n + 1 := by exact_mod_cast hfull
          omega
      exact (length_mapSet_le _ _ _).trans (by omega)

theorem Limiter.sorted_run (sha256 : String → String) (htimed : Timed l.windowStart calls) :
    ((l.run sha256 calls).appended.map (·.time)).Pairwise (· ≤ ·) := by
  induction calls using List.reverseRecOn with
  | nil => exact List.Pairwise.nil
  | append_singleton calls c ih =>
    have hpast := (htimed.le_time sha256).2
    rw [Limiter.run_concat]
    rcases (l.run sha256 calls).step_cases sha256 c with
      ⟨-, heq⟩ | ⟨-, -, heq⟩ | ⟨-, -, heq⟩
    · rw [heq]
      exact ih htimed.init
    · rw [heq]
      exact ih htimed.init
    · rw [heq, List.map_append, List.pairwise_append]
      refine ⟨ih htimed.init, List.pairwise_singleton _ _, fun t ht u hu => ?_⟩
      obtain ⟨d, hd, rfl⟩ := List.mem_map.mp ht
      obtain rfl : u = c.time := by simpa using hu
      exact hpast d hd

/-- The calls of the open window, and those of the windows before it: so many for each length of a
window that one looks back. -/
structure LimiterRun.Rolling (r : LimiterRun) (w : ℚ) (cap : Nat)
    (ended opened : List CredentialCall) : Prop where
  appended : r.appended = ended ++ opened
  length : opened.length = r.limiter.windowCount
  fits : r.limiter.windowCount ≤ cap
  back : ∀ n : Nat, ended.countP (fun d => r.limiter.windowStart - d.time < n * w) ≤ cap * n

theorem LimiterRun.Rolling.roll {w : ℚ} {cap : Nat} {ended opened : List CredentialCall}
    (h : r.Rolling w cap ended opened) {t : ℚ} (hover : w ≤ t - r.limiter.windowStart)
    (hpast : ∀ d ∈ r.appended, d.time ≤ t) (n : Nat) :
    r.appended.countP (fun d => t - d.time < n * w) ≤ cap * n := by
  cases n with
  | zero =>
    rw [Nat.mul_zero, Nat.le_zero, List.countP_eq_zero]
    intro d hd
    have hle := hpast d hd
    simp only [Nat.cast_zero, zero_mul, decide_eq_true_eq, not_lt]
    linarith
  | succ n =>
    rw [h.appended, List.countP_append, Nat.mul_succ]
    have hopened : opened.countP (fun d => t - d.time < (n + 1 : Nat) * w) ≤ cap := by
      refine List.countP_le_length.trans ?_
      rw [h.length]
      exact h.fits
    have hended : ended.countP (fun d => t - d.time < (n + 1 : Nat) * w) ≤ cap * n := by
      refine (List.countP_mono_left fun d _ hd => ?_).trans (h.back n)
      simp only [Nat.cast_add, Nat.cast_one, decide_eq_true_eq] at hd ⊢
      linarith
    omega

theorem Limiter.rolling_run (sha256 : String → String) {w : ℚ} {cap : Nat} (hw : l.windowMs = .finite w)
    (hcap : l.windowMaxAppends = .finite cap) (hcount : l.windowCount = 0)
    (htimed : Timed l.windowStart calls) :
    ∃ ended opened, (l.run sha256 calls).Rolling w cap ended opened := by
  induction calls using List.reverseRecOn with
  | nil => exact ⟨[], [], rfl, hcount.symm, by simp [hcount], by simp⟩
  | append_singleton calls c ih =>
    obtain ⟨ended, opened, hrolling⟩ := ih htimed.init
    have hfollows := l.follows_run sha256 calls
    have hpast := (htimed.le_time sha256).2
    have hroll : ∃ ended opened, LimiterRun.Rolling
        { l.run sha256 calls with limiter := (l.run sha256 calls).limiter.roll c.time }
        w cap ended opened := by
      unfold Limiter.roll
      split
      · rename_i hover
        rw [hfollows.windowMs, hw, Amount.reachedBy, decide_eq_true_eq] at hover
        exact ⟨_, [], by simp, rfl, Nat.zero_le _, hrolling.roll hover hpast⟩
      · exact ⟨ended, opened, hrolling⟩
    rw [Limiter.run_concat]
    rcases (l.run sha256 calls).step_cases sha256 c with
      ⟨-, heq⟩ | ⟨-, -, heq⟩ | ⟨-, hfull, heq⟩
    · rw [heq]
      exact ⟨ended, opened, hrolling⟩
    · rw [heq]
      exact hroll
    · rw [heq]
      obtain ⟨ended', opened', happended, hlength, -, hback⟩ := hroll
      rw [hfollows.windowMaxAppends, hcap, Amount.reachedBy, decide_eq_false_iff_not, not_le,
        Nat.cast_lt] at hfull
      refine ⟨ended', opened' ++ [c], ?_, ?_, hfull, hback⟩
      · dsimp only at happended
        rw [happended, List.append_assoc]
      · rw [List.length_append, hlength]
        rfl

/-- At most so many calls are appended in a stretch of `k` windows before any time. -/
theorem LimiterRun.Rolling.countP_le {w : ℚ} {cap : Nat} {ended opened : List CredentialCall}
    (h : r.Rolling w cap ended opened) {t : ℚ} (hstart : r.limiter.windowStart ≤ t) (k : Nat) :
    r.appended.countP (fun d => t - d.time < k * w) ≤ cap * (k + 1) := by
  rw [h.appended, List.countP_append, Nat.mul_succ]
  have hopened : opened.countP (fun d => t - d.time < k * w) ≤ cap := by
    refine List.countP_le_length.trans ?_
    rw [h.length]
    exact h.fits
  have hended : ended.countP (fun d => t - d.time < k * w) ≤ cap * k := by
    refine (List.countP_mono_left fun d _ hd => ?_).trans (h.back k)
    simp only [decide_eq_true_eq] at hd ⊢
    linarith
  omega

/-- As long as nothing is renewed, the map holds the last appended calls in their order. -/
theorem Limiter.seen_eq_of_not_renews (hseen : l.seen = [])
    (hrenews : ∀ before c after, calls = before ++ c :: after →
      ¬(l.run sha256 before).Renews sha256 c) :
    ∃ k, (l.run sha256 calls).limiter.seen = ((l.run sha256 calls).appended.drop k).map
      fun d => (sha256 d.value, l.dedupTtlMs.plus d.time) := by
  induction calls using List.reverseRecOn with
  | nil => exact ⟨0, hseen⟩
  | append_singleton calls c ih =>
    obtain ⟨k, hk⟩ := ih fun before d after heq =>
      hrenews before d (after ++ [c]) (by simp [heq])
    have hfollows := l.follows_run sha256 calls
    rw [Limiter.run_concat]
    rcases (l.run sha256 calls).step_cases sha256 c with
      ⟨-, heq⟩ | ⟨-, -, heq⟩ | ⟨hknown, hfull, heq⟩
    · rw [heq]
      exact ⟨k, hk⟩
    · rw [heq]
      exact ⟨k, by simpa using hk⟩
    · rw [heq]
      have hroom : ((l.run sha256 calls).limiter.roll c.time).room =
          (l.run sha256 calls).limiter.room := by
        unfold Limiter.room
        rw [Limiter.roll_seen, Limiter.roll_dedupMaxEntries]
      have hnew : ((l.run sha256 calls).limiter.room.any fun e => e.1 == sha256 c.value) = false := by
        rw [Bool.eq_false_iff]
        intro hany
        obtain ⟨e, he, hkey⟩ := List.any_eq_true.mp hany
        exact hrenews calls c [] rfl ⟨⟨hknown, hfull⟩,
          List.mem_map.mpr ⟨e, he, by simpa using hkey⟩⟩
      have hdrop : ∃ j, j ≤ (l.run sha256 calls).appended.length ∧
          (l.run sha256 calls).limiter.room = ((l.run sha256 calls).appended.drop j).map
            fun d => (sha256 d.value, l.dedupTtlMs.plus d.time) := by
        unfold Limiter.room
        rw [hk]
        split
        · refine ⟨min (k + 1) _, min_le_right _ _, ?_⟩
          rw [← List.map_tail, List.tail_drop, List.drop_eq_drop_min (i := k + 1)]
        · exact ⟨min k _, min_le_right _ _, by rw [← List.drop_eq_drop_min]⟩
      obtain ⟨j, hj, hlist⟩ := hdrop
      refine ⟨j, ?_⟩
      simp only [Limiter.remember, hroom, mapSet, hnew, Bool.false_eq_true, if_false,
        Limiter.roll_dedupTtlMs, hfollows.dedupTtlMs]
      rw [hlist, List.drop_append_of_le_length hj, List.map_append]
      rfl

/-- Without renewals an entry that is dropped is older than all that fit into its time to live. -/
theorem Limiter.dropsExpired_of_not_renews {w : ℚ} {cap m k : Nat} (hw : l.windowMs = .finite w)
    (hcap : l.windowMaxAppends = .finite cap) (hcount : l.windowCount = 0)
    (hmax : l.dedupMaxEntries = .finite m) (httl : l.dedupTtlMs = .finite (k * w))
    (hm : cap * (k + 1) < m) (hseen : l.seen = []) (htimed : Timed l.windowStart (calls ++ [c]))
    (hrenews : ∀ before d after, calls = before ++ d :: after →
      ¬(l.run sha256 before).Renews sha256 d) :
    (l.run sha256 calls).DropsExpired sha256 c := by
  intro _ hfull e he
  obtain ⟨ended, opened, hrolling⟩ := l.rolling_run sha256 hw hcap hcount htimed.init
  obtain ⟨j, hlist⟩ := l.seen_eq_of_not_renews hseen hrenews
  have hfollows := l.follows_run sha256 calls
  have hsorted := l.sorted_run sha256 htimed.init
  have hrecent := hrolling.countP_le (htimed.le_time sha256).1 k
  rw [hfollows.dedupMaxEntries, hmax, hlist, List.length_map, Amount.reachedBy,
    decide_eq_true_eq, Nat.cast_le] at hfull
  cases hdrop : (l.run sha256 calls).appended.drop j with
  | nil =>
    rw [hlist, hdrop] at he
    simp at he
  | cons d rest =>
    rw [hlist, hdrop, List.map_cons, List.head?_cons, Option.mem_def, Option.some.injEq] at he
    subst he
    cases halive : (l.dedupTtlMs.plus d.time).exceeds c.time with
    | false => rfl
    | true =>
      simp only [httl, Amount.plus, Amount.exceeds, decide_eq_true_eq] at halive
      -- all entries from the oldest one on are in the time to live of that one
      have hall : ∀ x ∈ (l.run sha256 calls).appended.drop j,
          decide (c.time - x.time < k * w) = true := by
        intro x hx
        have hle : d.time ≤ x.time := by
          have hrest := hsorted.sublist
            ((List.drop_sublist j (l.run sha256 calls).appended).map (·.time))
          rw [hdrop, List.map_cons, List.pairwise_cons] at hrest
          rw [hdrop] at hx
          rcases List.mem_cons.mp hx with rfl | hx
          · exact le_refl _
          · exact hrest.1 _ (List.mem_map_of_mem hx)
        rw [decide_eq_true_eq]
        linarith
      have hmany := (List.drop_sublist j (l.run sha256 calls).appended).countP_le
        (p := fun x => decide (c.time - x.time < k * w))
      rw [List.countP_eq_length.mpr hall] at hmany
      omega

/-- With the default options: the map stays within its bound, a credential is appended once in its
time to live when only expired entries are dropped, and only these are when none is renewed. -/
theorem one_append_per_ttl :
    ∀ create ∈ [createRejectedCookieLimiter, createRejectedTokenLimiter], ∀ start calls,
      Timed start calls →
        ((create {} start).run sha256 calls).limiter.seen.length ≤ 500 ∧
        ((∀ before c after, calls = before ++ c :: after →
          ((create {} start).run sha256 before).DropsExpired sha256 c) →
            OncePerTtl (create {} start).dedupTtlMs
              ((create {} start).run sha256 calls).appended) ∧
        ((∀ before c after, calls = before ++ c :: after →
          ¬((create {} start).run sha256 before).Renews sha256 c) →
            ∀ before c after, calls = before ++ c :: after →
              ((create {} start).run sha256 before).DropsExpired sha256 c) := by
  have hboth : ∀ create ∈ [createRejectedCookieLimiter, createRejectedTokenLimiter],
      create = createLimiter := by
    intro create hcreate
    simp only [List.mem_cons, List.not_mem_nil, or_false] at hcreate
    rcases hcreate with rfl | rfl
    · rfl
    · rfl
  intro create hcreate start calls htimed
  rw [hboth create hcreate]
  have hmax : (createLimiter {} start).dedupMaxEntries = .finite ((500 : Nat) : ℚ) := by
    norm_num [createLimiter]
  refine ⟨?_, fun hdrops => (Limiter.oncePerTtl_run htimed hdrops).1, ?_⟩
  · exact Limiter.length_seen_le (n := 499) (by rw [hmax]; norm_num) (Nat.zero_le _) calls
  · intro hrenews before c after heq
    have hinit : Timed start (before ++ [c]) := by
      rw [heq] at htimed
      have hsub : (before ++ [c]).Sublist (before ++ c :: after) :=
        (List.sublist_append_left _ after).trans (by simp)
      exact htimed.sublist (List.Sublist.cons_cons _ (hsub.map _))
    refine @Limiter.dropsExpired_of_not_renews sha256 (createLimiter {} start) c before 60000 20 500 5
      rfl ?_ rfl hmax ?_      (by norm_num) rfl hinit fun before' d after' heq' => ?_
    · norm_num [createLimiter]
    · norm_num [createLimiter]
    · exact hrenews before' d (after' ++ c :: after) (by simp [heq, heq'])

/-- A credential is tried twice. -/
theorem one_append_per_ttl_twice :
    ((createRejectedCookieLimiter {} 0).run id [⟨"a", 0⟩, ⟨"a", 0⟩]).limiter.seen.length ≤ 500 ∧
      OncePerTtl (.finite 300000)
        ((createRejectedCookieLimiter {} 0).run id [⟨"a", 0⟩, ⟨"a", 0⟩]).appended := by
  have hkept := @one_append_per_ttl id createRejectedCookieLimiter (by simp) 0
    [⟨"a", 0⟩, ⟨"a", 0⟩] (by simp [Timed])
  have honce := hkept.2.1 (hkept.2.2 fun before c after heq hrenews => ?_)
  · refine ⟨hkept.1, ?_⟩
    norm_num [createRejectedCookieLimiter, createLimiter] at honce ⊢
    exact honce
  · rcases before with _ | ⟨d, _ | ⟨e, before⟩⟩
    · exact absurd hrenews.2 (by simp [Limiter.room, createRejectedCookieLimiter, createLimiter])
    · simp only [List.cons_append, List.nil_append, List.cons.injEq] at heq
      obtain ⟨rfl, rfl, rfl⟩ := heq
      exact absurd hrenews.1.1 (by
        norm_num [Limiter.run, LimiterRun.step, Limiter.shouldAppend, Limiter.known, Limiter.roll,
          Limiter.remember, Limiter.room, mapSet, createRejectedCookieLimiter, createLimiter,
          Amount.reachedBy, Amount.exceeds, Amount.plus])
    · simp at heq

def filler (i : Nat) : CredentialCall := ⟨String.ofList (List.replicate i 'x'), 60000 * (i + 1)⟩

def fillerEntry (i : Nat) : String × Amount :=
  (String.ofList (List.replicate i 'x'), .finite (60000 * (i + 1) + 300000))

/-- The map after `n` fillers, each in a window of its own. -/
def filled (n : Nat) : Limiter :=
  { createRejectedCookieLimiter {} 0 with
    seen := (List.range n).map fillerEntry
    windowStart := 60000 * n
    windowCount := min n 1 }

theorem mapSet_of_notMem {α : Type} {m : List (String × α)} {k : String} (v : α)
    (h : ∀ e ∈ m, e.1 ≠ k) : mapSet m k v = m ++ [(k, v)] := by
  unfold mapSet
  rw [if_neg]
  intro hany
  obtain ⟨e, he, hkey⟩ := List.any_eq_true.mp hany
  exact h e he (by simpa using hkey)

theorem replicate_ne {i n : Nat} (h : i ≠ n) :
    String.ofList (List.replicate i 'x') ≠ String.ofList (List.replicate n 'x') := by
  intro heq
  have hlength := congrArg List.length (String.ofList_injective heq)
  simp only [List.length_replicate] at hlength
  exact h hlength

theorem run_fillers {n : Nat} (h : n ≤ 499) :
    (createRejectedCookieLimiter {} 0).run id ((List.range n).map filler) =
      ⟨filled n, (List.range n).map filler⟩ := by
  induction n with
  | zero => simp [filled, createRejectedCookieLimiter, createLimiter]
  | succ n ih =>
    have hroll : (filled n).roll (60000 * (n + 1)) =
        { filled n with windowStart := 60000 * (n + 1), windowCount := 0 } := by
      have hover : (filled n).windowMs.reachedBy
          (60000 * (n + 1) - (filled n).windowStart) = true := by
        have hle : (60000 : ℚ) ≤ 60000 * (n + 1) - 60000 * n := by linarith
        exact decide_eq_true hle
      rw [Limiter.roll, if_pos hover]
    have hnew : ∀ e ∈ (filled n).seen, e.1 ≠ (filler n).value := by
      intro e he
      obtain ⟨i, hi, rfl⟩ := List.mem_map.mp he
      exact replicate_ne (List.mem_range.mp hi).ne
    have hfresh : ∀ d ∈ (List.range n).map filler, d.value ≠ (filler n).value := by
      intro d hd
      obtain ⟨i, hi, rfl⟩ := List.mem_map.mp hd
      exact replicate_ne (List.mem_range.mp hi).ne
    have hempty : ¬(20 : ℚ) ≤ ((0 : Nat) : ℚ) := by norm_num
    have hstep := Limiter.step_fresh (l := createRejectedCookieLimiter {} 0)
      Function.injective_id rfl hfresh (by
        rw [ih (by omega), show (filler n).time = 60000 * (n + 1) from rfl, hroll]
        exact decide_eq_false hempty)
    rw [ih (by omega)] at hstep
    rw [List.range_succ, List.map_append, List.map_singleton, Limiter.run_concat, ih (by omega),
      hstep]
    have hroom : ({ filled n with windowStart := 60000 * (n + 1), windowCount := 0 } :
        Limiter).room = (filled n).seen := by
      have hsmall : ¬(500 : ℚ) ≤ n := by
        have hn : (n : ℚ) ≤ 498 := by exact_mod_cast (by omega : n ≤ 498)
        linarith
      simp [Limiter.room, filled, createRejectedCookieLimiter, createLimiter, Amount.reachedBy,
        hsmall]
    rw [show (filler n).time = 60000 * (n + 1) from rfl, hroll]
    simp only [Limiter.remember, hroom, id_eq, mapSet_of_notMem _ hnew]
    simp [filled, List.range_succ, fillerEntry, filler, createRejectedCookieLimiter, createLimiter,
      Amount.plus]
    norm_num

/-- The fillers after the first. -/
def laterEntries : List (String × Amount) := (List.range 498).map fun i => fillerEntry (i + 1)

/-- A limiter in the window of the last filler. -/
def afterFillers (seen : List (String × Amount)) (count : Nat) : Limiter :=
  { createRejectedCookieLimiter {} 0 with
    seen := seen
    windowStart := 29940000
    windowCount := count }

theorem laterEntries_ne {k : String} (h : k = "" ∨ 'b' ∈ k.toList ∨ 'c' ∈ k.toList) :
    ∀ e ∈ laterEntries, e.1 ≠ k := by
  intro e he heq
  obtain ⟨i, -, rfl⟩ := List.mem_map.mp he
  subst heq
  simp [fillerEntry, String.ext_iff] at h

theorem step_afterFillers {seen : List (String × Amount)} {count : Nat} (hcount : count < 20)
    {v : String} (hknown : (afterFillers seen count).known v 29940000 = false)
    (appended : List CredentialCall) :
    LimiterRun.step id ⟨afterFillers seen count, appended⟩ ⟨v, 29940000⟩ =
      ⟨afterFillers (mapSet (if 500 ≤ seen.length then seen.tail else seen) v (.finite 30240000))
        (count + 1), appended ++ [⟨v, 29940000⟩]⟩ := by
  have hroll : (afterFillers seen count).roll 29940000 = afterFillers seen count := by
    norm_num [Limiter.roll, afterFillers, createRejectedCookieLimiter, createLimiter,
      Amount.reachedBy]
  have hroom : ¬(20 : ℚ) ≤ count := by
    have hlt : (count : ℚ) < 20 := by exact_mod_cast hcount
    linarith
  rcases LimiterRun.step_cases id ⟨afterFillers seen count, appended⟩
    ⟨v, 29940000⟩ with ⟨h, -⟩ | ⟨-, h, -⟩ | ⟨-, -, h⟩
  · exact absurd (hknown.symm.trans h) (by simp)
  · rw [hroll] at h
    exact absurd (of_decide_eq_true h) hroom
  · rw [h, hroll]
    simp only [Limiter.remember, Limiter.room, afterFillers, createRejectedCookieLimiter,
      createLimiter, Amount.reachedBy, Option.getD_none, Amount.plus, id_eq]
    norm_num

/-- The first filler once more, two others, and the first filler again. -/
def renewal : List CredentialCall :=
  [⟨"", 29940000⟩, ⟨"b", 29940000⟩, ⟨"c", 29940000⟩, ⟨"", 29940000⟩]

theorem timed_renewal : Timed 0 ((List.range 499).map filler ++ renewal) := by
  have htimes : (renewal.map (·.time)) = List.replicate 4 29940000 := rfl
  have hle : ∀ t ∈ ((List.range 499).map filler).map (·.time), 0 ≤ t ∧ t ≤ 29940000 := by
    intro t ht
    obtain ⟨d, hd, rfl⟩ := List.mem_map.mp ht
    obtain ⟨i, hi, rfl⟩ := List.mem_map.mp hd
    have hi' : (i : ℚ) ≤ 498 := by exact_mod_cast Nat.le_of_lt_succ (List.mem_range.mp hi)
    simp only [filler]
    exact ⟨by positivity, by linarith⟩
  unfold Timed
  rw [List.map_append, List.pairwise_cons, List.pairwise_append, htimes]
  refine ⟨fun t ht => ?_, ?_, List.pairwise_replicate.mpr (.inr (le_refl _)), fun t ht u hu => ?_⟩
  · rcases List.mem_append.mp ht with ht | ht
    · exact (hle t ht).1
    · rw [(List.mem_replicate.mp ht).2]
      norm_num
  · rw [List.map_map, List.pairwise_map]
    refine List.pairwise_lt_range.imp fun {i j} hij => ?_
    have hij' : (i : ℚ) ≤ j := by exact_mod_cast hij.le
    simp only [Function.comp, filler]
    linarith
  · rw [(List.mem_replicate.mp hu).2]
    exact (hle t ht).2

theorem appended_renewal :
    ((createRejectedCookieLimiter {} 0).run id ((List.range 499).map filler ++ renewal)).appended =
      (List.range 499).map filler ++ renewal := by
  have hfilled : filled 499 = afterFillers (fillerEntry 0 :: laterEntries) 1 := by
    have hseen : (List.range 499).map fillerEntry = fillerEntry 0 :: laterEntries := by
      rw [show 499 = 498 + 1 from rfl, List.range_succ_eq_map, List.map_cons, List.map_map]
      rfl
    rw [filled, hseen, afterFillers]
    norm_num
  have hlength : laterEntries.length = 498 := by simp [laterEntries]
  have hempty := laterEntries_ne (k := "") (.inl rfl)
  have hb := laterEntries_ne (k := "b") (by simp)
  have hc := laterEntries_ne (k := "c") (by simp)
  have hfirst (appended) : LimiterRun.step id
      ⟨afterFillers (fillerEntry 0 :: laterEntries) 1, appended⟩ ⟨"", 29940000⟩ =
      ⟨afterFillers (("", .finite 30240000) :: laterEntries) 2, appended ++ [⟨"", 29940000⟩]⟩ := by
    have hexpired : (afterFillers (fillerEntry 0 :: laterEntries) 1).known "" 29940000 = false := by
      norm_num [Limiter.known, afterFillers, fillerEntry, Amount.exceeds]
    have hset : mapSet (fillerEntry 0 :: laterEntries) "" (.finite 30240000) =
        ("", .finite 30240000) :: laterEntries := by
      simp only [mapSet, fillerEntry, List.replicate_zero, String.ofList_nil, List.any_cons,
        beq_self_eq_true, Bool.true_or, if_true, List.map_cons, List.cons.injEq, true_and]
      refine (List.map_congr_left fun e he => ?_).trans (List.map_id _)
      rw [if_neg (by simpa using hempty e he)]
      rfl
    rw [step_afterFillers (by norm_num) hexpired]
    simp [hlength, hset]
  have hsecond (appended) : LimiterRun.step id
      ⟨afterFillers (("", .finite 30240000) :: laterEntries) 2, appended⟩ ⟨"b", 29940000⟩ =
      ⟨afterFillers (("", .finite 30240000) :: laterEntries ++ [("b", .finite 30240000)]) 3,
        appended ++ [⟨"b", 29940000⟩]⟩ := by
    have hnew : ∀ e ∈ ("", Amount.finite 30240000) :: laterEntries, e.1 ≠ "b" := by
      intro e he
      rcases List.mem_cons.mp he with rfl | he
      · simp
      · exact hb e he
    rw [step_afterFillers (by norm_num) (Limiter.known_eq_false hnew),
      if_neg (by simp [hlength]), mapSet_of_notMem _ hnew]
  have hthird (appended) : LimiterRun.step id
      ⟨afterFillers (("", .finite 30240000) :: laterEntries ++ [("b", .finite 30240000)]) 3,
        appended⟩ ⟨"c", 29940000⟩ =
      ⟨afterFillers (laterEntries ++ [("b", .finite 30240000), ("c", .finite 30240000)]) 4,
        appended ++ [⟨"c", 29940000⟩]⟩ := by
    have hnew : ∀ e ∈ laterEntries ++ [("b", Amount.finite 30240000)], e.1 ≠ "c" := by
      intro e he
      rcases List.mem_append.mp he with he | he
      · exact hc e he
      · rw [List.mem_singleton.mp he]
        simp
    have hunknown : (afterFillers (("", .finite 30240000) :: laterEntries ++
        [("b", .finite 30240000)]) 3).known "c" 29940000 = false := by
      refine Limiter.known_eq_false fun e he => ?_
      rcases List.mem_cons.mp he with rfl | he
      · simp
      · exact hnew e he
    rw [step_afterFillers (by norm_num) hunknown, if_pos (by simp [hlength]), List.cons_append,
      List.tail_cons, mapSet_of_notMem _ hnew, List.append_assoc]
    rfl
  have hagain : (afterFillers (laterEntries ++
      [("b", .finite 30240000), ("c", .finite 30240000)]) 4).known "" 29940000 = false := by
    refine Limiter.known_eq_false fun e he => ?_
    rcases List.mem_append.mp he with he | he
    · exact hempty e he
    · simp only [List.mem_cons, List.not_mem_nil, or_false] at he
      rcases he with rfl | rfl
      · simp
      · simp
  unfold Limiter.run
  rw [List.foldl_append, ← Limiter.run, run_fillers (le_refl 499), hfilled]
  simp only [renewal, List.foldl_cons, List.foldl_nil]
  rw [hfirst, hsecond, hthird, step_afterFillers (by norm_num) hagain]
  simp

/-- With the default options and no collisions: the first filler has expired and is renewed in its
old place, is dropped from there, and its credential is appended once more at the same time. -/
theorem renewed_entry_dropped :
    ¬∀ sha256 : String → String, Function.Injective sha256 → ∀ calls, Timed 0 calls →
      OncePerTtl (createRejectedCookieLimiter {} 0).dedupTtlMs
        ((createRejectedCookieLimiter {} 0).run sha256 calls).appended := by
  intro honce
  have hpairs := honce id Function.injective_id _ timed_renewal
  rw [appended_renewal] at hpairs
  unfold OncePerTtl at hpairs
  rw [List.pairwise_append] at hpairs
  have hlast := hpairs.2.1
  rw [renewal, List.pairwise_cons] at hlast
  have halive := hlast.1 ⟨"", 29940000⟩ (by simp) rfl
  norm_num [createRejectedCookieLimiter, createLimiter, Amount.plus, Amount.exceeds] at halive

end OpenRupiv.Runtime
