import OpenRupiv.Lib.Transactions

/-!
# One client and a database that may fail

The runs of a program that has the database to itself.  A command may fail; it may take effect and
be reported as failed, when its reply is lost; and the process may stop at any command.  `Ends` says
what holds at the end of every run, with one rule for each way to build a program.
-/

namespace OpenRupiv.Lib

/-- How a run ends: the program returns or throws, or its process stops. -/
inductive Ending (ε α : Type) where
  | returned (a : α)
  | threw (e : ε)
  | crashed
  deriving DecidableEq

variable {E : Engine} {ε ε' α β : Type}

/-- The runs of a program, from the contents and the session at the start to those at the end. -/
inductive Executes : Prog (Cmd.Reply (E := E)) ε α → E.Contents → Session E.Write →
    Ending ε α → E.Contents → Session E.Write → Prop where
  | ret {a κ σ} : Executes (.ret a) κ σ (.returned a) κ σ
  | throw {e κ σ} : Executes (.throw e) κ σ (.threw e) κ σ
  | crash {k next κ σ} : Executes (.call k next) κ σ .crashed κ σ
  | failed {k next κ σ o κ' σ'} (choice : E.Choice) : perform choice κ σ k = none →
      Executes (next none) κ (σ.afterFailure k) o κ' σ' → Executes (.call k next) κ σ o κ' σ'
  | done {k next κ σ eff o κ' σ'} (choice : E.Choice) : perform choice κ σ k = some eff →
      Executes (next (some eff.reply)) (E.applyAll κ eff.writes) eff.session o κ' σ' →
      Executes (.call k next) κ σ o κ' σ'
  /-- The command took effect, and its reply was lost. -/
  | lost {k next κ σ eff o κ' σ'} (choice : E.Choice) : k.fallible = true →
      perform choice κ σ k = some eff →
      Executes (next none) (E.applyAll κ eff.writes) (eff.session.afterFailure k) o κ' σ' →
      Executes (.call k next) κ σ o κ' σ'

/-- Every run of the program ends in `Q`. -/
def Ends (Q : Ending ε α → E.Contents → Session E.Write → Prop) :
    Prog (Cmd.Reply (E := E)) ε α → E.Contents → Session E.Write → Prop
  | .ret a, κ, σ => Q (.returned a) κ σ
  | .throw e, κ, σ => Q (.threw e) κ σ
  | .call k next, κ, σ => Q .crashed κ σ ∧ ∀ choice : E.Choice,
      (perform choice κ σ k = none → Ends Q (next none) κ (σ.afterFailure k)) ∧
      ∀ eff, perform choice κ σ k = some eff →
        Ends Q (next (some eff.reply)) (E.applyAll κ eff.writes) eff.session ∧
        (k.fallible = true →
          Ends Q (next none) (E.applyAll κ eff.writes) (eff.session.afterFailure k))

variable {Q Q' : Ending ε α → E.Contents → Session E.Write → Prop}
  {p : Prog (Cmd.Reply (E := E)) ε α} {κ κ' : E.Contents} {σ σ' : Session E.Write} {o : Ending ε α}

theorem ends_of_executes (h : Ends Q p κ σ) (hrun : Executes p κ σ o κ' σ') : Q o κ' σ' := by
  induction hrun with
  | ret => exact h
  | throw => exact h
  | crash => exact h.1
  | failed choice hnone _ ih => exact ih ((h.2 choice).1 hnone)
  | done choice heff _ ih => exact ih ((h.2 choice).2 _ heff).1
  | lost choice hk heff _ ih => exact ih (((h.2 choice).2 _ heff).2 hk)

theorem Ends.mono (h : Ends Q p κ σ) (hQ : ∀ o κ σ, Q o κ σ → Q' o κ σ) : Ends Q' p κ σ := by
  induction p generalizing κ σ with
  | ret a => exact hQ _ _ _ h
  | throw e => exact hQ _ _ _ h
  | call k next ih =>
    refine ⟨hQ _ _ _ h.1, fun choice => ⟨fun hnone => ?_, fun eff heff => ?_⟩⟩
    · exact ih _ ((h.2 choice).1 hnone)
    · obtain ⟨hdone, hlost⟩ := (h.2 choice).2 eff heff
      exact ⟨ih _ hdone, fun hk => ih _ (hlost hk)⟩

@[simp] theorem ends_ret {a : α} : Ends Q (.ret a) κ σ ↔ Q (.returned a) κ σ := Iff.rfl

@[simp] theorem ends_pure {a : α} : Ends Q (pure a) κ σ ↔ Q (.returned a) κ σ := Iff.rfl

@[simp] theorem ends_throw {e : ε} : Ends Q (.throw e) κ σ ↔ Q (.threw e) κ σ := Iff.rfl

/-- How a run ends that goes on with `f`, unless the first part threw or the process stopped. -/
def Proceeds (Q : Ending ε α → E.Contents → Session E.Write → Prop)
    (f : β → Prog (Cmd.Reply (E := E)) ε α) :
    Ending ε β → E.Contents → Session E.Write → Prop
  | .returned b, κ, σ => Ends Q (f b) κ σ
  | .threw e, κ, σ => Q (.threw e) κ σ
  | .crashed, κ, σ => Q .crashed κ σ

@[simp] theorem proceeds_returned {f : β → Prog (Cmd.Reply (E := E)) ε α} {b : β} :
    Proceeds Q f (.returned b) κ σ ↔ Ends Q (f b) κ σ := Iff.rfl

@[simp] theorem proceeds_threw {f : β → Prog (Cmd.Reply (E := E)) ε α} {e : ε} :
    Proceeds Q f (.threw e) κ σ ↔ Q (.threw e) κ σ := Iff.rfl

@[simp] theorem proceeds_crashed {f : β → Prog (Cmd.Reply (E := E)) ε α} :
    Proceeds Q f .crashed κ σ ↔ Q .crashed κ σ := Iff.rfl

/-- What holds at the end of the program inside a `try`. -/
def Caught (R : Ending ε (Except ε' β) → E.Contents → Session E.Write → Prop) :
    Ending ε' β → E.Contents → Session E.Write → Prop
  | .returned b, κ, σ => R (.returned (.ok b)) κ σ
  | .threw e, κ, σ => R (.returned (.error e)) κ σ
  | .crashed, κ, σ => R .crashed κ σ

@[simp] theorem caught_returned {R : Ending ε (Except ε' β) → E.Contents → Session E.Write → Prop}
    {b : β} : Caught R (.returned b) κ σ ↔ R (.returned (.ok b)) κ σ := Iff.rfl

@[simp] theorem caught_threw {R : Ending ε (Except ε' β) → E.Contents → Session E.Write → Prop}
    {e : ε'} : Caught R (.threw e) κ σ ↔ R (.returned (.error e)) κ σ := Iff.rfl

private theorem ends_call_congr {ε₁ ε₂ α₁ α₂ : Type} {k : Cmd E}
    {next₁ : Option k.Reply → Prog (Cmd.Reply (E := E)) ε₁ α₁}
    {next₂ : Option k.Reply → Prog (Cmd.Reply (E := E)) ε₂ α₂}
    {Q₁ : Ending ε₁ α₁ → E.Contents → Session E.Write → Prop}
    {Q₂ : Ending ε₂ α₂ → E.Contents → Session E.Write → Prop}
    (hcrashed : Q₁ .crashed κ σ ↔ Q₂ .crashed κ σ)
    (h : ∀ r κ σ, Ends Q₁ (next₁ r) κ σ ↔ Ends Q₂ (next₂ r) κ σ) :
    Ends Q₁ (.call k next₁) κ σ ↔ Ends Q₂ (.call k next₂) κ σ := by
  simp only [Ends, hcrashed, h]

theorem ends_bind {p : Prog (Cmd.Reply (E := E)) ε β} {f : β → Prog (Cmd.Reply (E := E)) ε α} :
    Ends Q (p >>= f) κ σ ↔ Ends (Proceeds Q f) p κ σ := by
  induction p generalizing κ σ with
  | ret b => exact Iff.rfl
  | throw e => exact Iff.rfl
  | call k next ih => exact ends_call_congr Iff.rfl fun r κ σ => ih r

theorem ends_result {p : Prog (Cmd.Reply (E := E)) ε' β}
    {R : Ending ε (Except ε' β) → E.Contents → Session E.Write → Prop} :
    Ends R p.result κ σ ↔ Ends (Caught R) p κ σ := by
  induction p generalizing κ σ with
  | ret b => exact Iff.rfl
  | throw e => exact Iff.rfl
  | call k next ih => exact ends_call_congr Iff.rfl fun r κ σ => ih r

theorem ends_notify {x : E.Ext} {Q : Ending ε Unit → E.Contents → Session E.Write → Prop}
    (hcrashed : Q .crashed κ σ) (hdone : Q (.returned ()) κ σ) :
    Ends Q (.attempt (κ := Cmd E) (.ext x)) κ σ := by
  refine ⟨hcrashed, fun choice => ⟨fun _ => ?_, fun eff heff => ⟨?_, fun hk => ?_⟩⟩⟩
  · have hsame : σ.afterFailure (.ext x) = σ := by cases σ <;> rfl
    rw [hsame]
    exact hdone
  · obtain ⟨r, _, h⟩ := Option.map_eq_some_iff.mp (proceed_of_perform heff)
    subst h
    exact hdone
  · exact absurd hk Bool.false_ne_true

variable [Fault ε]

theorem ends_perform {k : Cmd E} {Q : Ending ε k.Reply → E.Contents → Session E.Write → Prop}
    (hcrashed : Q .crashed κ σ)
    (hfailed : ∀ choice, perform choice κ σ k = none → Q (.threw fault) κ (σ.afterFailure k))
    (hdone : ∀ choice eff, perform choice κ σ k = some eff →
      Q (.returned eff.reply) (E.applyAll κ eff.writes) eff.session ∧
      (k.fallible = true →
        Q (.threw fault) (E.applyAll κ eff.writes) (eff.session.afterFailure k))) :
    Ends Q (.perform k) κ σ :=
  ⟨hcrashed, fun choice => ⟨hfailed choice, fun eff heff => hdone choice eff heff⟩⟩

theorem ends_ext {x : E.Ext} {Q : Ending ε (E.Answer x) → E.Contents → Session E.Write → Prop}
    (hcrashed : Q .crashed κ σ) (hfailed : Q (.threw fault) κ (σ.afterFailure (.ext x)))
    (hdone : ∀ choice r, E.answer choice x = some r → Q (.returned r) κ σ) :
    Ends Q (.perform (κ := Cmd E) (.ext x)) κ σ := by
  apply ends_perform (k := .ext x)
  · exact hcrashed
  · intro _ _
    exact hfailed
  · intro choice eff heff
    obtain ⟨r, hr, h⟩ := Option.map_eq_some_iff.mp (proceed_of_perform heff)
    subst h
    exact ⟨hdone choice r hr, fun hk => absurd hk Bool.false_ne_true⟩

variable {ws : List E.Write}

theorem ends_connect {Q : Ending ε Unit → E.Contents → Session E.Write → Prop}
    (hcrashed : Q .crashed κ .closed) (hfailed : ∀ σ, Q (.threw fault) κ σ)
    (hdone : Q (.returned ()) κ .idle) :
    Ends Q (.perform (κ := Cmd E) .connect) κ .closed := by
  apply ends_perform (k := .connect)
  · exact hcrashed
  · intro _ _
    exact hfailed _
  · intro choice eff heff
    have h := Option.some.inj (proceed_of_perform heff)
    subst h
    exact ⟨hdone, fun _ => hfailed _⟩

theorem ends_begin {Q : Ending ε Unit → E.Contents → Session E.Write → Prop}
    (hcrashed : Q .crashed κ .idle) (hfailed : ∀ σ, Q (.threw fault) κ σ)
    (hdone : Q (.returned ()) κ (.active [])) :
    Ends Q (.perform (κ := Cmd E) .begin) κ .idle := by
  apply ends_perform (k := .begin)
  · exact hcrashed
  · intro _ _
    exact hfailed _
  · intro choice eff heff
    have h := Option.some.inj (proceed_of_perform heff)
    subst h
    exact ⟨hdone, fun _ => hfailed _⟩

theorem ends_tx {s : E.Stmt} {Q : Ending ε (E.Reply s) → E.Contents → Session E.Write → Prop}
    (hcrashed : Q .crashed κ (.active ws)) (hfailed : ∀ σ, Q (.threw fault) κ σ)
    (hdone : ∀ choice r more, E.exec choice (E.applyAll κ ws) s = some (r, more) →
      Q (.returned r) κ (.active (ws ++ more))) :
    Ends Q (.perform (κ := Cmd E) (.tx s)) κ (.active ws) := by
  apply ends_perform (k := .tx s)
  · exact hcrashed
  · intro _ _
    exact hfailed _
  · intro choice eff heff
    obtain ⟨⟨r, more⟩, hexec, h⟩ := Option.map_eq_some_iff.mp (proceed_of_perform heff)
    subst h
    exact ⟨hdone choice r more hexec, fun _ => hfailed _⟩

theorem ends_commit {Q : Ending ε Unit → E.Contents → Session E.Write → Prop}
    (hcrashed : Q .crashed κ (.active ws)) (hfailed : ∀ σ, Q (.threw fault) κ σ)
    (hlost : ∀ σ, Q (.threw fault) (E.applyAll κ ws) σ)
    (hdone : Q (.returned ()) (E.applyAll κ ws) .idle) :
    Ends Q (.perform (κ := Cmd E) .commit) κ (.active ws) := by
  apply ends_perform (k := .commit)
  · exact hcrashed
  · intro _ _
    exact hfailed _
  · intro choice eff heff
    have h := Option.some.inj (proceed_of_perform heff)
    subst h
    exact ⟨hdone, fun _ => hlost _⟩

theorem ends_release {Q : Ending ε Unit → E.Contents → Session E.Write → Prop}
    (hcrashed : Q .crashed κ σ) (hdone : Q (.returned ()) κ .closed) :
    Ends Q (.perform (κ := Cmd E) .release) κ σ := by
  apply ends_perform (k := .release)
  · exact hcrashed
  · intro choice hnone
    exact absurd hnone (by simp [perform, Cmd.fallible, proceed])
  · intro choice eff heff
    have h := Option.some.inj (proceed_of_perform heff)
    subst h
    exact ⟨hdone, fun hk => absurd hk Bool.false_ne_true⟩

omit [Fault ε] in
theorem ends_rollback {Q : Ending ε Unit → E.Contents → Session E.Write → Prop}
    (hcrashed : Q .crashed κ σ) (hdone : ∀ σ, Q (.returned ()) κ σ) :
    Ends Q (.attempt (κ := Cmd E) .rollback) κ σ := by
  refine ⟨hcrashed, fun choice => ⟨fun _ => hdone _, fun eff heff => ?_⟩⟩
  have hproceed := proceed_of_perform heff
  have hwrites : eff.writes = [] := by
    cases σ <;> simp only [proceed, reduceCtorEq, Option.some.injEq] at hproceed <;>
      rw [← hproceed]
  rw [hwrites]
  exact ⟨hdone _, fun _ => hdone _⟩

end OpenRupiv.Lib
