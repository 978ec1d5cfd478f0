import OpenRupiv.Lib.Protocol
import OpenRupiv.Lib.Runs
import OpenRupiv.Lib.Sequential

/-!
# The database seam

`packages/runtime/src/db.ts`: `transaction`, what it takes for it to follow a protocol, and how it
ends when nobody else uses the database.
-/

namespace OpenRupiv.Runtime

open Lib

variable {E : Engine} {ε α : Type} [Fault ε]

def transaction (fn : Prog (Cmd.Reply (E := E)) ε α) : Prog (Cmd.Reply (E := E)) ε α := do
  Prog.perform (κ := Cmd E) .connect
  let outcome ← Prog.result (ε := ε) do
    Prog.perform (κ := Cmd E) .begin
    let value ← fn
    Prog.perform (κ := Cmd E) .commit
    return value
  match outcome with
  | .ok value =>
      Prog.perform (κ := Cmd E) .release
      return value
  | .error error =>
      Prog.attempt (κ := Cmd E) .rollback
      Prog.perform (κ := Cmd E) .release
      .throw error

section Traces

variable {fn : Prog (Cmd.Reply (E := E)) ε α} {trace : List (Prog.Answered (Cmd.Reply (E := E)))}

private def inTransaction (fn : Prog (Cmd.Reply (E := E)) ε α) : Prog (Cmd.Reply (E := E)) ε α := do
  Prog.perform (κ := Cmd E) .begin
  let value ← fn
  Prog.perform (κ := Cmd E) .commit
  return value

private theorem run_inTransaction {r : Except ε α} (h : (inTransaction fn).Run trace r)
    (hfn : fn.Uses (· ≠ .commit)) :
    (∃ value first, r = .ok value ∧ fn.Run first (.ok value) ∧
      trace = ⟨.begin, some ()⟩ :: (first ++ [⟨.commit, some ()⟩])) ∨
    ∃ error, r = .error error ∧ ⟨.commit, some ()⟩ ∉ trace := by
  obtain ⟨_, rest, rfl, hrest⟩ | ⟨rfl, rfl⟩ := Prog.run_perform_bind_iff.mp h
  case inr => exact .inr ⟨_, rfl, by simp⟩
  obtain ⟨value, first, last, hfirst, hlast, rfl⟩ | ⟨error, hthrown, rfl⟩ :=
    Prog.run_bind_iff.mp hrest
  · have hnone : ∀ reply, ⟨.commit, reply⟩ ∉ first := fun reply hmem => hfirst.uses hfn _ hmem rfl
    obtain ⟨_, _, rfl, hreturn⟩ | ⟨rfl, rfl⟩ := Prog.run_perform_bind_iff.mp hlast
    · obtain ⟨rfl, rfl⟩ := Prog.run_ret_iff.mp hreturn
      exact .inl ⟨value, first, rfl, hfirst, rfl⟩
    · exact .inr ⟨_, rfl, by simp [hnone]⟩
  · have hnone : ∀ reply, ⟨.commit, reply⟩ ∉ rest := fun reply hmem => hthrown.uses hfn _ hmem rfl
    exact .inr ⟨error, rfl, by simp [hnone]⟩

private theorem commit_not_mem_of_reaches {k : Cmd E}
    {next : Option k.Reply → Prog (Cmd.Reply (E := E)) ε α}
    (h : (inTransaction fn).Reaches trace (.call k next)) (hfn : fn.Uses (· ≠ .commit)) :
    ⟨.commit, some ()⟩ ∉ trace := by
  obtain rfl | ⟨_, rest, rfl, hrest⟩ := Prog.Reaches.of_perform_bind h
  · exact List.not_mem_nil
  have hnone : ⟨.commit, some ()⟩ ∉ rest := by
    obtain ⟨_, _, hfirst⟩ | ⟨_, -, heq⟩ | ⟨_, first, last, hfirst, hlast, rfl⟩ :=
      Prog.Reaches.of_bind (p := fn) hrest
    · exact fun hmem => hfirst.uses hfn _ hmem rfl
    · cases heq
    · obtain rfl | ⟨_, _, rfl, hreturn⟩ := Prog.Reaches.of_perform_bind hlast
      · rw [List.append_nil]
        exact fun hmem => hfirst.uses hfn _ hmem rfl
      · exact absurd hreturn Prog.not_reaches_ret
  simp [hnone]

/-- A transaction issues what `fn` does, and the commands of its connection. -/
theorem uses_transaction {S : Cmd E → Prop}
    (hconn : ∀ k ∈ ([.connect, .begin, .commit, .rollback, .release] : List (Cmd E)), S k)
    (hfn : fn.Uses S) : (transaction fn).Uses S := by
  simp only [List.forall_mem_cons] at hconn
  obtain ⟨hconnect, hbegin, hcommit, hrollback, hrelease, -⟩ := hconn
  refine (Prog.uses_perform hconnect).bind fun _ => (Prog.Uses.result ?_).bind fun r => ?_
  · refine (Prog.uses_perform hbegin).bind fun _ => hfn.bind fun _ => ?_
    exact (Prog.uses_perform hcommit).bind fun _ => trivial
  · cases r with
    | ok value => exact (Prog.uses_perform hrelease).bind fun _ => trivial
    | error error =>
      exact (Prog.uses_attempt hrollback).bind fun _ =>
        (Prog.uses_perform hrelease).bind fun _ => trivial

/-- A transaction returns after its commit, or it throws and has committed nothing. -/
theorem run_transaction_cases {o : Except ε α} (h : (transaction fn).Run trace o)
    (hfn : fn.Uses (· ≠ .commit)) (hrelease : ⟨.release, none⟩ ∉ trace) :
    (∃ value first, o = .ok value ∧ fn.Run first (.ok value) ∧
      trace = ⟨.connect, some ()⟩ :: ⟨.begin, some ()⟩ ::
        (first ++ [⟨.commit, some ()⟩, ⟨.release, some ()⟩])) ∨
    ∃ error, o = .error error ∧ ⟨.commit, some ()⟩ ∉ trace ∧
      (trace = [⟨.connect, none⟩] ∨ ∃ first, trace = first ++ [⟨.release, some ()⟩]) := by
  obtain ⟨_, rest, rfl, hrest⟩ | ⟨rfl, rfl⟩ := Prog.run_perform_bind_iff.mp h
  case inr => exact .inr ⟨_, rfl, by simp, .inl rfl⟩
  obtain ⟨r, body, last, hbody, hlast, rfl⟩ := Prog.run_result_bind_iff.mp hrest
  obtain ⟨value, first, rfl, hfirst, rfl⟩ | ⟨error, rfl, hnone⟩ := run_inTransaction hbody hfn
  · obtain ⟨_, _, rfl, hreturn⟩ | ⟨rfl, rfl⟩ := Prog.run_perform_bind_iff.mp hlast
    · obtain ⟨rfl, rfl⟩ := Prog.run_ret_iff.mp hreturn
      exact .inl ⟨value, first, rfl, hfirst, by simp⟩
    · exact absurd (by simp) hrelease
  · obtain ⟨_, _, rfl, hgiven⟩ := Prog.run_attempt_bind_iff.mp hlast
    obtain ⟨_, _, rfl, hthrow⟩ | ⟨rfl, rfl⟩ := Prog.run_perform_bind_iff.mp hgiven
    · obtain ⟨rfl, rfl⟩ := Prog.run_throw_iff.mp hthrow
      exact .inr ⟨error, rfl, by simp [hnone], .inr ⟨_ :: (body ++ [_]), by rw [List.cons_append, List.append_assoc]; rfl⟩⟩
    · exact absurd (by simp) hrelease

/-- A transaction under way has committed nothing, or it has only to give its connection back. -/
theorem reaches_transaction_cases {k : Cmd E}
    {next : Option k.Reply → Prog (Cmd.Reply (E := E)) ε α}
    (h : (transaction fn).Reaches trace (.call k next)) (hfn : fn.Uses (· ≠ .commit)) :
    ⟨.commit, some ()⟩ ∉ trace ∨
      ∃ value first, fn.Run first (.ok value) ∧
        trace = ⟨.connect, some ()⟩ :: ⟨.begin, some ()⟩ :: (first ++ [⟨.commit, some ()⟩]) ∧
        (transaction fn).Run (trace ++ [⟨.release, some ()⟩]) (.ok value) := by
  obtain rfl | ⟨_, rest, rfl, hrest⟩ := Prog.Reaches.of_perform_bind h
  · exact .inl List.not_mem_nil
  obtain ⟨_, _, hbody⟩ | ⟨r, body, last, hbody, hlast, rfl⟩ := Prog.Reaches.of_result_bind hrest
  · exact .inl (by simp [commit_not_mem_of_reaches hbody hfn])
  obtain ⟨value, first, rfl, hfirst, rfl⟩ | ⟨error, rfl, hnone⟩ := run_inTransaction hbody hfn
  · obtain rfl | ⟨_, _, rfl, hreturn⟩ := Prog.Reaches.of_perform_bind hlast
    · refine .inr ⟨value, first, hfirst, by simp, ?_⟩
      have hall : (transaction fn).Run (⟨.connect, some ()⟩ ::
          ((⟨.begin, some ()⟩ :: (first ++ [⟨.commit, some ()⟩])) ++ [⟨.release, some ()⟩]))
          (.ok value) :=
        .call (Prog.run_result_bind_iff.mpr ⟨_, _, _, hbody, .call (r := some ()) .ret, rfl⟩)
      simpa using hall
    · exact absurd hreturn Prog.not_reaches_ret
  · have hlast_none : ⟨.commit, some ()⟩ ∉ last := by
      obtain ⟨rfl, -⟩ | ⟨_, _, rfl, hgiven⟩ := Prog.reaches_call_iff.mp hlast
      · exact List.not_mem_nil
      obtain rfl | ⟨_, _, rfl, hthrow⟩ := Prog.Reaches.of_perform_bind hgiven
      · simp
      · exact absurd hthrow Prog.not_reaches_throw
    exact .inl (by simp [hnone, hlast_none])

end Traces

variable {Client Phase : Type} {G : Protection E} {P : Protocol E Client Phase} {c : Client}
  {φ : Phase} {κ : E.Contents}

/-- At the end of `fn`: it threw, or its writes are under its locks and can be committed. -/
def EndsIn (G : Protection E) (P : Protocol E Client Phase) (c : Client)
    (R : Except ε α → Phase → Prop) : Except ε α → Phase → Local E → E.Contents → Prop
  | .ok value, φ, σ, κ => ∃ ws held, σ = ⟨.active ws, held⟩ ∧
      (∀ w ∈ ws, ∀ l, G.touches w l → l ∈ held) ∧
      (∀ κ', σ.Rely G κ κ' → ∃ φ', P.Step c φ κ' .commit (some ()) ws φ' ∧ R (.ok value) φ') ∧
      R (.error fault) (P.fail φ)
  | .error error, φ, _, _ => R (.error error) φ

/-- At the end of `fn`, which caught the failure of a statement: nothing can be committed. -/
def EndsAborted (P : Protocol E Client Phase) (c : Client) (R : Except ε α → Phase → Prop) :
    Except ε α → Phase → Local E → Prop
  | .ok value, φ, σ => σ = ⟨.aborted, []⟩ ∧
      (∀ κ', ∃ φ', P.Step c φ κ' .commit (some ()) [] φ' ∧ R (.ok value) φ') ∧
      R (.error fault) (P.fail φ)
  | .error _, _, _ => False

theorem safe_transaction_of {fn : Prog (Cmd.Reply (E := E)) ε α} {R : Except ε α → Phase → Prop}
    (hfn : ∀ κ, Safe G P c
      (fun r φ σ κ => EndsIn G P c R r φ σ κ ∨ EndsAborted P c R r φ σ) fn φ ⟨.active [], []⟩ κ)
    (hfail : R (.error fault) (P.fail φ)) :
    Safe G P c (fun r φ σ _ => σ = .closed ∧ R r φ) (transaction fn) φ .closed κ := by
  have hended : ∀ {r : Except ε α} {φ' : Phase} {σ : Local E} {κ' : E.Contents}, R r φ' →
      Safe G P c (fun r φ σ _ => σ = .closed ∧ R r φ) (match r with
        | .ok value => do
            Prog.perform (κ := Cmd E) .release
            return value
        | .error error => do
            Prog.attempt (κ := Cmd E) .rollback
            Prog.perform (κ := Cmd E) .release
            .throw error) φ' σ κ' := by
    intro r φ' σ κ' hr
    cases r with
    | ok value =>
      rw [safe_bind]
      exact safe_release fun _ => ⟨rfl, hr⟩
    | error error =>
      rw [safe_bind]
      apply safe_rollback
      intro σ' κ''
      rw [continues_ok, safe_bind]
      exact safe_release fun _ => ⟨rfl, hr⟩
  unfold transaction
  rw [safe_bind]
  apply safe_connect
  case hfail =>
    intro _
    exact ⟨rfl, hfail⟩
  intro κ₁
  rw [continues_ok, safe_bind, safe_result, safe_bind]
  apply safe_begin
  case hfail =>
    intro _
    exact hended hfail
  intro κ₂
  rw [continues_ok, safe_bind]
  apply (hfn κ₂).mono
  intro r φ' σ κ' hr
  cases r with
  | error error => exact hended (hr.resolve_right not_false)
  | ok value =>
    rw [continues_ok, safe_bind]
    rcases hr with ⟨ws, held, rfl, hlocks, hcommit, hlost⟩ | ⟨rfl, hcommit, hlost⟩
    · apply safe_commit hlocks
      case hfail =>
        intro _
        exact hended hlost
      intro κ'' hrely
      obtain ⟨φ'', hstep, hdone⟩ := hcommit κ'' hrely
      exact ⟨φ'', hstep, hended hdone⟩
    · apply safe_commit_aborted
      case hfail =>
        intro _
        exact hended hlost
      intro κ''
      obtain ⟨φ'', hstep, hdone⟩ := hcommit κ''
      exact ⟨φ'', hstep, hended hdone⟩

theorem safe_transaction {fn : Prog (Cmd.Reply (E := E)) ε α} {R : Except ε α → Phase → Prop}
    (hfn : ∀ κ, Safe G P c (EndsIn G P c R) fn φ ⟨.active [], []⟩ κ)
    (hfail : R (.error fault) (P.fail φ)) :
    Safe G P c (fun r φ σ _ => σ = .closed ∧ R r φ) (transaction fn) φ .closed κ :=
  safe_transaction_of (fun κ' => (hfn κ').mono fun _ _ _ _ => .inl) hfail

/-- At the end of `fn`: its writes can be committed, or nothing has happened. -/
def EndsAlone (Q : Ending ε α → E.Contents → Session E.Write → Prop) (κ : E.Contents) :
    Ending ε α → E.Contents → Session E.Write → Prop
  | .returned value, κ', σ => κ' = κ ∧ ∃ ws, σ = .active ws ∧
      Q (.returned value) (E.applyAll κ ws) .closed ∧
      (∀ σ, Q .crashed (E.applyAll κ ws) σ) ∧ ∀ σ, Q (.threw fault) (E.applyAll κ ws) σ
  | _, κ', _ => κ' = κ

/-- A transaction happens as a whole or not at all; it may have happened when it throws. -/
theorem ends_transaction {fn : Prog (Cmd.Reply (E := E)) ε α}
    {Q : Ending ε α → E.Contents → Session E.Write → Prop}
    (hfn : Ends (EndsAlone Q κ) fn κ (.active []))
    (hcrashed : ∀ σ, Q .crashed κ σ) (hthrew : ∀ e σ, Q (.threw e) κ σ) :
    Ends Q (transaction fn) κ .closed := by
  have hreturned : ∀ {value κ'}, Q .crashed κ' .idle → Q (.returned value) κ' .closed →
      Ends Q (do
        Prog.perform (κ := Cmd E) .release
        return value) κ' .idle := by
    intro value κ' hstopped hdone
    rw [ends_bind]
    exact ends_release hstopped hdone
  have hended : ∀ {e κ' σ}, (∀ σ, Q .crashed κ' σ) → (∀ σ, Q (.threw e) κ' σ) →
      Ends Q (do
        Prog.attempt (κ := Cmd E) .rollback
        Prog.perform (κ := Cmd E) .release
        .throw e) κ' σ := by
    intro e κ' σ hstopped hdone
    rw [ends_bind]
    apply ends_rollback (hstopped _)
    intro σ'
    rw [proceeds_returned, ends_bind]
    exact ends_release (hstopped _) (hdone _)
  unfold transaction
  rw [ends_bind]
  apply ends_connect (hcrashed _) (hthrew _)
  rw [proceeds_returned, ends_bind, ends_result, ends_bind]
  apply ends_begin (hcrashed _) fun σ => hended hcrashed (hthrew _)
  rw [proceeds_returned, ends_bind]
  apply hfn.mono
  intro o κ' σ hcommits
  cases o with
  | crashed =>
    obtain rfl : κ' = κ := hcommits
    exact hcrashed _
  | threw e =>
    obtain rfl : κ' = κ := hcommits
    exact hended hcrashed (hthrew _)
  | returned value =>
    obtain ⟨rfl, ws, rfl, hdone, hstopped, hlost⟩ := hcommits
    rw [proceeds_returned, ends_bind]
    apply ends_commit (hcrashed _)
    · intro σ
      exact hended hcrashed (hthrew _)
    · intro σ
      exact hended hstopped hlost
    · exact hreturned (hstopped _) hdone

end OpenRupiv.Runtime
