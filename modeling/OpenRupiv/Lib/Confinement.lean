import OpenRupiv.Lib.Transactions

/-!
# What a program can do at all

`Confined P` says of a program that each command it may issue satisfies `P`, whatever the database
answers.  What a client has written then comes from commands that satisfy `P`, in every run and
whoever else is there (`deeds_of_run`).
-/

namespace OpenRupiv.Lib

variable {E : Engine} {Client : Type} {ε ε' α β : Type}

/-- The database may answer the command so. -/
def Cmd.Answers : (k : Cmd E) → k.Reply → Prop
  | .tx s, r | .query s, r => ∃ choice κ ws, E.exec choice κ s = some (r, ws)
  | _, _ => True

/-- The command may write this. -/
def Cmd.Writes (w : E.Write) : Cmd E → Prop
  | .tx s | .query s => ∃ choice κ r ws, E.exec choice κ s = some (r, ws) ∧ w ∈ ws
  | _ => False

/-- Every command that the program may issue satisfies `P`. -/
def Confined (P : Cmd E → Prop) : Prog (Cmd.Reply (E := E)) ε α → Prop
  | .ret _ | .throw _ => True
  | .call k next => P k ∧ Confined P (next none) ∧ ∀ r, k.Answers r → Confined P (next (some r))

variable {P P' : Cmd E → Prop}

@[simp] theorem confined_ret {a : α} :
    Confined P (.ret a : Prog (Cmd.Reply (E := E)) ε α) ↔ True := Iff.rfl

@[simp] theorem confined_pure {a : α} :
    Confined P (pure a : Prog (Cmd.Reply (E := E)) ε α) ↔ True := Iff.rfl

@[simp] theorem confined_throw {e : ε} :
    Confined P (.throw e : Prog (Cmd.Reply (E := E)) ε α) ↔ True := Iff.rfl

theorem Confined.bind {p : Prog (Cmd.Reply (E := E)) ε β} {f : β → Prog (Cmd.Reply (E := E)) ε α}
    (hp : Confined P p) (hf : ∀ b, Confined P (f b)) : Confined P (p >>= f) := by
  induction p with
  | ret b => exact hf b
  | throw e => trivial
  | call k next ih =>
    obtain ⟨hk, hnone, hsome⟩ := hp
    exact ⟨hk, ih none hnone, fun r hr => ih (some r) (hsome r hr)⟩

theorem Confined.bind_throw {p : Prog (Cmd.Reply (E := E)) ε β} (hp : Confined P p) {e : ε}
    {γ : Type} {f : γ → Prog (Cmd.Reply (E := E)) ε α} :
    Confined P ((p >>= fun _ => (.throw e : Prog (Cmd.Reply (E := E)) ε γ)) >>= f) := by
  induction p with
  | ret b => trivial
  | throw e => trivial
  | call k next ih =>
    obtain ⟨hk, hnone, hsome⟩ := hp
    exact ⟨hk, ih none hnone, fun r hr => ih (some r) (hsome r hr)⟩

theorem Confined.result {p : Prog (Cmd.Reply (E := E)) ε β} (hp : Confined P p) :
    Confined P (p.result : Prog (Cmd.Reply (E := E)) ε' (Except ε β)) := by
  induction p with
  | ret b => trivial
  | throw e => trivial
  | call k next ih =>
    obtain ⟨hk, hnone, hsome⟩ := hp
    exact ⟨hk, ih none hnone, fun r hr => ih (some r) (hsome r hr)⟩

theorem Confined.mono {p : Prog (Cmd.Reply (E := E)) ε α} (hp : Confined P p)
    (h : ∀ k, P k → P' k) : Confined P' p := by
  induction p with
  | ret a => trivial
  | throw e => trivial
  | call k next ih =>
    obtain ⟨hk, hnone, hsome⟩ := hp
    exact ⟨h k hk, ih none hnone, fun r hr => ih (some r) (hsome r hr)⟩

theorem confined_of_forall {p : Prog (Cmd.Reply (E := E)) ε α} (h : ∀ k, P k) : Confined P p := by
  induction p with
  | ret a => trivial
  | throw e => trivial
  | call k next ih => exact ⟨h k, ih none, fun r _ => ih (some r)⟩

theorem confined_perform_bind [Fault ε] {k : Cmd E} {f : k.Reply → Prog (Cmd.Reply (E := E)) ε α}
    (hk : P k) (hf : ∀ r, k.Answers r → Confined P (f r)) :
    Confined P (Prog.perform (κ := Cmd E) k >>= f) :=
  ⟨hk, trivial, hf⟩

theorem confined_perform [Fault ε] {k : Cmd E} (hk : P k) :
    Confined P (Prog.perform k : Prog (Cmd.Reply (E := E)) ε k.Reply) :=
  ⟨hk, trivial, fun _ _ => trivial⟩

theorem confined_attempt {k : Cmd E} (hk : P k) :
    Confined P (Prog.attempt k : Prog (Cmd.Reply (E := E)) ε Unit) :=
  ⟨hk, trivial, fun _ _ => trivial⟩

/-- The writes of a session that are not visible yet. -/
def Session.pending {W : Type} : Session W → List W
  | .active writes => writes
  | _ => []

/-- What an effect makes visible or leaves pending was pending, or the command wrote it. -/
theorem writes_of_perform {choice : E.Choice} {κ : E.Contents} {session : Session E.Write}
    {k : Cmd E} {eff : Effect E k} (h : perform choice κ session k = some eff) {w : E.Write}
    (hw : w ∈ eff.session.pending ∨ w ∈ eff.writes) : w ∈ session.pending ∨ k.Writes w := by
  have hproceed := proceed_of_perform h
  cases k with
  | connect | release =>
    rw [← Option.some.inj hproceed] at hw
    exact absurd hw (by simp [Session.pending])
  | begin | rollback =>
    cases session <;> simp only [proceed, reduceCtorEq, Option.some.injEq] at hproceed
    all_goals
      rw [← hproceed] at hw
      exact absurd hw (by simp [Session.pending])
  | commit =>
    cases session <;> simp only [proceed, reduceCtorEq, Option.some.injEq] at hproceed
    case active writes =>
      rw [← hproceed] at hw
      exact .inl (hw.resolve_left List.not_mem_nil)
    all_goals
      rw [← hproceed] at hw
      exact absurd hw (by simp [Session.pending])
  | tx s =>
    cases session with
    | active writes =>
      obtain ⟨⟨r, more⟩, hexec, heff⟩ := Option.map_eq_some_iff.mp hproceed
      rw [← heff] at hw
      rcases hw with hw | hw
      · exact (List.mem_append.mp hw).imp id fun hmem => ⟨choice, _, r, more, hexec, hmem⟩
      · exact absurd hw List.not_mem_nil
    | _ => exact absurd hproceed (by simp [proceed])
  | query s =>
    obtain ⟨⟨r, more⟩, hexec, heff⟩ := Option.map_eq_some_iff.mp hproceed
    rw [← heff] at hw
    exact hw.imp id fun hmem => ⟨choice, _, r, more, hexec, hmem⟩
  | ext x =>
    obtain ⟨r, -, heff⟩ := Option.map_eq_some_iff.mp hproceed
    rw [← heff] at hw
    exact hw.imp id fun hmem => absurd hmem List.not_mem_nil

theorem answers_of_perform {choice : E.Choice} {κ : E.Contents} {session : Session E.Write}
    {k : Cmd E} {eff : Effect E k} (h : perform choice κ session k = some eff) :
    k.Answers eff.reply := by
  have hproceed := proceed_of_perform h
  cases k with
  | tx s =>
    cases session with
    | active writes =>
      obtain ⟨⟨r, more⟩, hexec, heff⟩ := Option.map_eq_some_iff.mp hproceed
      rw [← heff]
      exact ⟨choice, _, more, hexec⟩
    | _ => exact absurd hproceed (by simp [proceed])
  | query s =>
    obtain ⟨⟨r, more⟩, hexec, heff⟩ := Option.map_eq_some_iff.mp hproceed
    rw [← heff]
    exact ⟨choice, _, more, hexec⟩
  | _ => trivial

/-- What the clients did is confined. -/
structure Deeds (P : Client → Cmd E → Prop) (W : World E Client ε α) : Prop where
  procs : ∀ c, Confined (P c) (W.procs c)
  cmds : ∀ e ∈ W.history, P e.client e.cmd
  replies : ∀ e ∈ W.history, ∀ r, e.reply = some r → e.cmd.Answers r
  pending : ∀ c, ∀ w ∈ (W.session c).pending, ∃ k, P c k ∧ k.Writes w
  writes : ∀ e ∈ W.history, ∀ w ∈ e.writes, ∃ k, P e.client k ∧ k.Writes w

section Runs

variable [DecidableEq Client] [DecidableEq E.Lock] {P : Client → Cmd E → Prop}
  {W W' : World E Client ε α}

private theorem Deeds.settle (h : Deeds P W) {c : Client} {k : Cmd E}
    {next : Option k.Reply → Prog (Cmd.Reply (E := E)) ε α} {reply : Option k.Reply}
    {session : Session E.Write} {locks : List E.Lock} {writes : List E.Write} (hk : P c k)
    (hnext : Confined (P c) (next reply)) (hreply : ∀ r, reply = some r → k.Answers r)
    (hwrites : ∀ w, w ∈ session.pending ∨ w ∈ writes → ∃ k, P c k ∧ k.Writes w) :
    Deeds P (W.settle c k next reply session locks writes) where
  procs c' := by
    by_cases hc : c' = c
    · subst hc
      simpa [World.settle] using hnext
    · simpa [World.settle, hc] using h.procs c'
  cmds e he := by
    rcases List.mem_append.mp he with he | he
    · exact h.cmds e he
    · rw [List.mem_singleton.mp he]
      exact hk
  replies e he := by
    rcases List.mem_append.mp he with he | he
    · exact h.replies e he
    · cases List.mem_singleton.mp he
      exact hreply
  pending c' w hw := by
    by_cases hc : c' = c
    · subst hc
      exact hwrites w (.inl (by simpa [World.settle] using hw))
    · exact h.pending c' w (by simpa [World.settle, hc] using hw)
  writes e he w hw := by
    rcases List.mem_append.mp he with he | he
    · exact h.writes e he w hw
    · cases List.mem_singleton.mp he
      exact hwrites w (.inr hw)

theorem Deeds.step (h : Deeds P W) {c : Client} {choice : E.Choice}
    (hstep : W.step c choice = some W') : Deeds P W' := by
  obtain ⟨k, next, hproc, hcases⟩ := World.step_cases hstep
  have hconfined := h.procs c
  rw [hproc] at hconfined
  obtain ⟨hk, hnone, hsome⟩ := hconfined
  rcases hcases with ⟨-, rfl⟩ | ⟨eff, heff, -, rfl⟩
  · apply h.settle hk hnone (by simp)
    intro w hw
    rcases hw with hw | hw
    · apply h.pending c w
      cases hsession : W.session c with
      | active writes =>
        rw [hsession] at hw
        cases k <;> first | exact hw | exact absurd hw List.not_mem_nil
      | _ =>
        rw [hsession] at hw
        cases k <;> exact absurd hw List.not_mem_nil
    · exact absurd hw List.not_mem_nil
  · apply h.settle hk (hsome _ (answers_of_perform heff))
    · intro r hr
      rw [← Option.some.inj hr]
      exact answers_of_perform heff
    · intro w hw
      rcases writes_of_perform heff hw with hpending | hwrites
      · exact h.pending c w hpending
      · exact ⟨k, hk, hwrites⟩

theorem deeds_of_run {procs : Client → Prog (Cmd.Reply (E := E)) ε α} {contents : E.Contents}
    {schedule : List (Client × E.Choice)} (hprocs : ∀ c, Confined (P c) (procs c))
    (hrun : World.run schedule (.start procs contents) = some W) : Deeds P W := by
  apply World.run_induction (motive := Deeds P) hrun
  · refine ⟨hprocs, ?_, ?_, ?_, ?_⟩
    · intro e he
      exact absurd he List.not_mem_nil
    · intro e he
      exact absurd he List.not_mem_nil
    · intro c w hw
      exact absurd hw List.not_mem_nil
    · intro e he
      exact absurd he List.not_mem_nil
  · intro V V' c choice hstep h
    exact h.step hstep

theorem contents_of_run {procs : Client → Prog (Cmd.Reply (E := E)) ε α} {contents : E.Contents}
    {schedule : List (Client × E.Choice)}
    (hrun : World.run schedule (.start procs contents) = some W) :
    W.contents = E.applyAll contents (W.history.flatMap (·.writes)) := by
  apply World.run_induction
    (motive := fun V => V.contents = E.applyAll contents (V.history.flatMap (·.writes))) hrun rfl
  intro V V' c choice hstep h
  obtain ⟨k, next, -, ⟨-, rfl⟩ | ⟨eff, -, -, rfl⟩⟩ := World.step_cases hstep
  · rw [World.settle, List.flatMap_append, E.applyAll_append, ← h]
    rfl
  · rw [World.settle, List.flatMap_append, E.applyAll_append, ← h, List.flatMap_singleton]

end Runs

end OpenRupiv.Lib
