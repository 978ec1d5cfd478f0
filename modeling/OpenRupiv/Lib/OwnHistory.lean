import OpenRupiv.Lib.Interleaving
import OpenRupiv.Lib.Runs
import OpenRupiv.Lib.Transactions

/-!
# What a client did itself

Whatever the other clients of a machine do, the phase of a client goes with its own part of the
history, and every reply in the history was chosen by an entry of the schedule.  A client of a
database is as far in its program as its own part of the history says.
-/

namespace OpenRupiv.Lib

namespace Machine

variable {Client : Type} {M : Machine Client} {ε α Phase : Type} [DecidableEq Client]

def ownEvents (history : List M.Event) (c : Client) : List M.Event :=
  history.filter fun e => e.client = c

theorem ownEvents_concat (history : List M.Event) (e : M.Event) (c : Client) :
    ownEvents (history ++ [e]) c =
      if e.client = c then ownEvents history c ++ [e] else ownEvents history c := by
  rw [ownEvents, List.filter_append, List.filter_singleton]
  split <;> simp_all [ownEvents]

variable {code : Client → Phase → Prog M.Reply ε α} {P : Client → Phase → List M.Event → Prop}

/-- `P` holds of the phase of every client and of what it did itself. -/
def Own (P : Client → Phase → List M.Event → Prop) (phases : Client → Phase) (_ : M.State)
    (history : List M.Event) : Prop :=
  ∀ c, P c (phases c) (ownEvents history c)

/-- What holds of a phase and the client's own events, and is preserved by its operations, holds in
every world. -/
theorem run_own
    (hstep : ∀ {c φ own k next} (reply : Option (M.Reply k)), P c φ own → code c φ = .call k next →
      ∃ φ', next reply = code c φ' ∧ P c φ' (own ++ [⟨c, k, reply⟩]))
    {phases : Client → Phase} (hstart : ∀ c, P c (phases c) []) (state : M.State)
    (schedule : List (Client × M.Choice)) (c : Client) :
    ∃ φ, (run (begin (fun c => code c (phases c)) state) schedule).procs c = code c φ ∧
      P c φ (ownEvents (run (begin (fun c => code c (phases c)) state) schedule).history c) := by
  have hpres : Preserves code (Own P) := by
    intro phases state history d k next choice reply state' hinv hcall hexec
    obtain ⟨φ', hnext, hφ'⟩ := hstep reply (hinv d) hcall
    refine ⟨φ', hnext, fun c => ?_⟩
    rw [ownEvents_concat]
    by_cases hdc : d = c
    · subst hdc
      rw [if_pos rfl, Function.update_self]
      exact hφ'
    · rw [if_neg hdc, Function.update_of_ne (Ne.symm hdc)]
      exact hinv c
  have hbegin : Describes code (Own P) (begin (fun c => code c (phases c)) state) :=
    ⟨phases, rfl, hstart⟩
  obtain ⟨phases', hprocs, hinv⟩ := run_phases hpres hbegin schedule
  exact ⟨phases' c, congrFun hprocs c, hinv c⟩

/-- The reply in an event is what the machine answered for a choice of the schedule. -/
theorem exec_of_mem_history {w : M.World ε α} {schedule : List (Client × M.Choice)} {e : M.Event}
    (h : e ∈ (run w schedule).history) :
    e ∈ w.history ∨ ∃ s ∈ schedule, ∃ state state', M.exec s.2 state s.1 e.op =
      some (e.reply, state') := by
  induction schedule generalizing w with
  | nil => exact .inl h
  | cons s schedule ih =>
    have hrun : run w (s :: schedule) = run (step w s.1 s.2) schedule := rfl
    rw [hrun] at h
    rcases ih h with hmem | ⟨s', hs', state, state', hexec⟩
    · rcases step_cases w s.1 s.2 with heq | ⟨k, next, reply, state', -, hexec, heq⟩
      · rw [heq] at hmem
        exact .inl hmem
      · rw [heq] at hmem
        rcases List.mem_append.mp hmem with hold | hnew
        · exact .inl hold
        · obtain rfl := List.mem_singleton.mp hnew
          exact .inr ⟨s, List.mem_cons_self, w.state, state', hexec⟩
    · exact .inr ⟨s', List.mem_cons_of_mem _ hs', state, state', hexec⟩

end Machine

namespace World

variable {E : Engine} {Client : Type} {ε α : Type}

theorem perform_release_ne_none {choice : E.Choice} {contents : E.Contents}
    {session : Session E.Write} : perform choice contents session (.release : Cmd E) ≠ none := by
  simp [perform, Cmd.fallible, proceed]

variable [DecidableEq Client]

/-- The commands of a client with their replies. -/
def ownTrace (history : List (Label E Client)) (c : Client) :
    List (Prog.Answered (Cmd.Reply (E := E))) :=
  (history.filter fun e => e.client = c).map fun e => ⟨e.cmd, e.reply⟩

theorem ownTrace_concat (history : List (Label E Client)) (e : Label E Client) (c : Client) :
    ownTrace (history ++ [e]) c =
      if e.client = c then ownTrace history c ++ [⟨e.cmd, e.reply⟩] else ownTrace history c := by
  rw [ownTrace, List.filter_append, List.filter_singleton]
  by_cases hc : e.client = c <;> simp [hc, ownTrace]

variable [DecidableEq E.Lock]

theorem reaches_of_run {procs : Client → Prog (Cmd.Reply (E := E)) ε α} {contents : E.Contents}
    {schedule : List (Client × E.Choice)} {W : World E Client ε α}
    (h : run schedule (start procs contents) = some W) (c : Client) :
    (procs c).Reaches (ownTrace W.history c) (W.procs c) ∧
      ⟨.release, none⟩ ∉ ownTrace W.history c := by
  refine run_induction (motive := fun V => (procs c).Reaches (ownTrace V.history c) (V.procs c) ∧
    ⟨.release, none⟩ ∉ ownTrace V.history c) h ⟨.refl, List.not_mem_nil⟩ ?_
  intro V V' d choice hstep ih
  obtain ⟨k, next, hproc, hsettled⟩ := step_cases hstep
  have hsettle : ∃ reply session locks writes, V' = V.settle d k next reply session locks writes ∧
      (k = .release → reply.isSome = true) := by
    rcases hsettled with ⟨hnone, rfl⟩ | ⟨eff, -, -, rfl⟩
    · refine ⟨_, _, _, _, rfl, ?_⟩
      rintro rfl
      exact absurd hnone perform_release_ne_none
    · exact ⟨_, _, _, _, rfl, fun _ => rfl⟩
  obtain ⟨reply, session, locks, writes, rfl, hreply⟩ := hsettle
  simp only [settle, ownTrace_concat]
  by_cases hd : d = c
  · subst hd
    rw [if_pos rfl, Function.update_self]
    rw [hproc] at ih
    refine ⟨ih.1.concat reply, ?_⟩
    rw [List.mem_append, List.mem_singleton]
    rintro (hmem | heq)
    · exact ih.2 hmem
    · cases heq
      exact absurd (hreply rfl) (by simp)
  · rw [if_neg hd, Function.update_of_ne (Ne.symm hd)]
    exact ih

end World

end OpenRupiv.Lib
