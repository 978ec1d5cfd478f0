import OpenRupiv.Lib.Prog
import Mathlib.Logic.Function.Basic
import Mathlib.Data.List.Basic

/-!
# Interleaved clients of one machine

Many clients run a program each against one machine, which executes their operations one at a time,
in any order.  An operation may have to wait, and it may fail.

A client's program is followed through its phases: when every operation leads from the code of one
phase to the code of another and keeps an invariant of the phases of all clients, the invariant
holds in every world that a schedule leads to (`run_phases`).
-/

namespace OpenRupiv.Lib

structure Machine (Client : Type) where
  Op : Type
  Reply : Op → Type
  State : Type
  /-- What the environment decides when an operation is executed. -/
  Choice : Type
  /-- The reply, none when the operation fails, and the state after it; `none` while it waits. -/
  exec : Choice → State → Client → (k : Op) → Option (Option (Reply k) × State)

namespace Machine

variable {Client : Type}

/-- An entry of the history. -/
structure Event (M : Machine Client) where
  client : Client
  op : M.Op
  reply : Option (M.Reply op)

structure World (M : Machine Client) (ε α : Type) where
  procs : Client → Prog M.Reply ε α
  state : M.State
  history : List M.Event

variable {M : Machine Client} {ε α Phase : Type} [DecidableEq Client]

/-- One operation of a client that has not finished. -/
def step (w : M.World ε α) (c : Client) (choice : M.Choice) : M.World ε α :=
  match w.procs c with
  | .call k next =>
      match M.exec choice w.state c k with
      | some (reply, state) =>
          { procs := Function.update w.procs c (next reply)
            state
            history := w.history ++ [⟨c, k, reply⟩] }
      | none => w
  | _ => w

def run (w : M.World ε α) (schedule : List (Client × M.Choice)) : M.World ε α :=
  schedule.foldl (fun w s => step w s.1 s.2) w

def begin (procs : Client → Prog M.Reply ε α) (state : M.State) : M.World ε α where
  procs
  state
  history := []

theorem run_concat (w : M.World ε α) (schedule : List (Client × M.Choice))
    (s : Client × M.Choice) : run w (schedule ++ [s]) = step (run w schedule) s.1 s.2 := by
  rw [run, List.foldl_append]
  rfl

theorem step_cases (w : M.World ε α) (c : Client) (choice : M.Choice) :
    step w c choice = w ∨ ∃ k next reply state, w.procs c = .call k next ∧
      M.exec choice w.state c k = some (reply, state) ∧
      step w c choice = ⟨Function.update w.procs c (next reply), state,
        w.history ++ [⟨c, k, reply⟩]⟩ := by
  unfold step
  split
  · rename_i k next hcall
    split
    · rename_i reply state hexec
      exact .inr ⟨k, next, reply, state, hcall, hexec, rfl⟩
    · exact .inl rfl
  · exact .inl rfl

theorem step_of_call {w : M.World ε α} {c : Client} {choice : M.Choice} {k : M.Op}
    {next : Option (M.Reply k) → Prog M.Reply ε α} {reply : Option (M.Reply k)} {state : M.State}
    (hcall : w.procs c = .call k next) (hexec : M.exec choice w.state c k = some (reply, state)) :
    step w c choice =
      ⟨Function.update w.procs c (next reply), state, w.history ++ [⟨c, k, reply⟩]⟩ := by
  simp only [step, hcall, hexec]

theorem step_of_ended {w : M.World ε α} {c : Client} (choice : M.Choice)
    (h : ∀ k next, w.procs c ≠ .call k next) : step w c choice = w := by
  rcases step_cases w c choice with heq | ⟨k, next, reply, state, hcall, -, -⟩
  · exact heq
  · exact absurd hcall (h k next)

theorem run_of_ended {w : M.World ε α} {c : Client} (h : ∀ k next, w.procs c ≠ .call k next)
    (schedule : List (Client × M.Choice)) : (run w schedule).procs c = w.procs c := by
  induction schedule generalizing w with
  | nil => rfl
  | cons s schedule ih =>
    have hstep : (step w s.1 s.2).procs c = w.procs c := by
      rcases step_cases w s.1 s.2 with heq | ⟨k, next, reply, state, hcall, -, heq⟩
      · rw [heq]
      · have hne : c ≠ s.1 := by
          rintro rfl
          exact h k next hcall
        rw [heq]
        exact Function.update_of_ne hne _ _
    exact (ih (hstep ▸ h)).trans hstep

theorem run_of_all_ended {w : M.World ε α} (h : ∀ c k next, w.procs c ≠ .call k next)
    (schedule : List (Client × M.Choice)) : run w schedule = w := by
  induction schedule with
  | nil => rfl
  | cons s schedule ih =>
    rw [run, List.foldl_cons, step_of_ended s.2 (h s.1)]
    exact ih

/-- The phases of the clients describe their programs, and the invariant holds of them. -/
def Describes (code : Client → Phase → Prog M.Reply ε α)
    (inv : (Client → Phase) → M.State → List M.Event → Prop) (w : M.World ε α) : Prop :=
  ∃ phases, (w.procs = fun c => code c (phases c)) ∧ inv phases w.state w.history

/-- What an operation has to do to the phase of its client. -/
def Preserves (code : Client → Phase → Prog M.Reply ε α)
    (inv : (Client → Phase) → M.State → List M.Event → Prop) : Prop :=
  ∀ {phases state history c k next choice reply state'}, inv phases state history →
    code c (phases c) = .call k next → M.exec choice state c k = some (reply, state') →
    ∃ φ, next reply = code c φ ∧
      inv (Function.update phases c φ) state' (history ++ [⟨c, k, reply⟩])

variable {code : Client → Phase → Prog M.Reply ε α}
  {inv : (Client → Phase) → M.State → List M.Event → Prop}

theorem step_phases (hpres : Preserves code inv) {w : M.World ε α} (h : Describes code inv w)
    (c : Client) (choice : M.Choice) : Describes code inv (step w c choice) := by
  obtain ⟨phases, hprocs, hinv⟩ := h
  unfold step
  split
  · rename_i k next hcall
    split
    · rename_i reply state hexec
      rw [hprocs] at hcall
      obtain ⟨φ, hnext, hinv'⟩ := hpres hinv hcall hexec
      refine ⟨Function.update phases c φ, ?_, hinv'⟩
      funext d
      by_cases hd : d = c
      · subst hd
        simp [hnext]
      · simp [hprocs, hd]
    · exact ⟨phases, hprocs, hinv⟩
  · exact ⟨phases, hprocs, hinv⟩

theorem run_phases (hpres : Preserves code inv) {w : M.World ε α} (h : Describes code inv w)
    (schedule : List (Client × M.Choice)) : Describes code inv (run w schedule) := by
  induction schedule generalizing w with
  | nil => exact h
  | cons s schedule ih => exact ih (step_phases hpres h s.1 s.2)

end Machine

end OpenRupiv.Lib
