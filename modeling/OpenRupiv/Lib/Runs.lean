import OpenRupiv.Lib.Prog

/-!
# Complete runs of a program

A run answers the commands of a program one by one until the program returns or throws.  The runs of
a composite program are put together from runs of its parts.
-/

namespace OpenRupiv.Lib

namespace Prog

variable {κ : Type} {Reply : κ → Type} {ε ε' α β : Type}

/-- A command with its reply, none when it failed. -/
abbrev Answered (Reply : κ → Type) : Type := (k : κ) × Option (Reply k)

/-- The answered commands of a run, and its end. -/
inductive Run : Prog Reply ε α → List (Answered Reply) → Except ε α → Prop where
  | ret {a} : Run (.ret a) [] (.ok a)
  | throw {e} : Run (.throw e) [] (.error e)
  | call {k next r trace o} : Run (next r) trace o → Run (.call k next) (⟨k, r⟩ :: trace) o

variable {p : Prog Reply ε α} {f : α → Prog Reply ε β} {trace : List (Answered Reply)}

theorem bind_ret (p : Prog Reply ε α) : (p >>= .ret) = p := by
  induction p with
  | ret a => rfl
  | throw e => rfl
  | call k next ih => exact congrArg (Prog.call k) (funext ih)

theorem run_ret_iff {a : α} {o : Except ε α} :
    Run (.ret a : Prog Reply ε α) trace o ↔ trace = [] ∧ o = .ok a := by
  constructor
  · intro h
    cases h
    exact ⟨rfl, rfl⟩
  · rintro ⟨rfl, rfl⟩
    exact .ret

theorem run_throw_iff {e : ε} {o : Except ε α} :
    Run (.throw e : Prog Reply ε α) trace o ↔ trace = [] ∧ o = .error e := by
  constructor
  · intro h
    cases h
    exact ⟨rfl, rfl⟩
  · rintro ⟨rfl, rfl⟩
    exact .throw

theorem run_call_iff {k : κ} {next : Option (Reply k) → Prog Reply ε α} {o : Except ε α} :
    Run (.call k next) trace o ↔ ∃ r rest, trace = ⟨k, r⟩ :: rest ∧ Run (next r) rest o := by
  constructor
  · intro h
    cases h with
    | call h => exact ⟨_, _, rfl, h⟩
  · rintro ⟨r, rest, rfl, h⟩
    exact .call h

theorem run_ofExcept_iff {x o : Except ε α} :
    Run (ofExcept x : Prog Reply ε α) trace o ↔ trace = [] ∧ o = x := by
  cases x with
  | ok a => exact run_ret_iff
  | error e => exact run_throw_iff

theorem Run.bind {a : α} {first rest : List (Answered Reply)} {o : Except ε β}
    (hp : p.Run first (.ok a)) (hf : (f a).Run rest o) : (p >>= f).Run (first ++ rest) o := by
  generalize hend : (.ok a : Except ε α) = r at hp
  induction hp with
  | ret =>
    cases hend
    exact hf
  | throw => cases hend
  | call _ ih => exact .call (ih hend)

theorem Run.bind_error {e : ε} (hp : p.Run trace (.error e)) :
    (p >>= f).Run trace (.error e) := by
  generalize hend : (.error e : Except ε α) = r at hp
  induction hp with
  | ret => cases hend
  | throw =>
    cases hend
    exact .throw
  | call _ ih => exact .call (ih hend)

theorem run_bind_iff {o : Except ε β} :
    (p >>= f).Run trace o ↔
      (∃ a first rest, p.Run first (.ok a) ∧ (f a).Run rest o ∧ trace = first ++ rest) ∨
        ∃ e, p.Run trace (.error e) ∧ o = .error e := by
  constructor
  · intro h
    induction p generalizing trace with
    | ret a => exact .inl ⟨a, [], trace, .ret, h, rfl⟩
    | throw e =>
      obtain ⟨rfl, rfl⟩ := run_throw_iff.mp h
      exact .inr ⟨e, .throw, rfl⟩
    | call k next ih =>
      obtain ⟨r, rest, rfl, hnext⟩ := run_call_iff.mp h
      rcases ih r hnext with ⟨a, first, last, hp, hf, rfl⟩ | ⟨e, hp, rfl⟩
      · exact .inl ⟨a, ⟨k, r⟩ :: first, last, .call hp, hf, rfl⟩
      · exact .inr ⟨e, .call hp, rfl⟩
  · rintro (⟨a, first, rest, hp, hf, rfl⟩ | ⟨e, hp, rfl⟩)
    · exact hp.bind hf
    · exact hp.bind_error

theorem run_result_iff {o : Except ε' (Except ε α)} :
    (p.result : Prog Reply ε' (Except ε α)).Run trace o ↔ ∃ r, p.Run trace r ∧ o = .ok r := by
  constructor
  · intro h
    induction p generalizing trace with
    | ret a =>
      obtain ⟨rfl, rfl⟩ := run_ret_iff.mp h
      exact ⟨.ok a, .ret, rfl⟩
    | throw e =>
      obtain ⟨rfl, rfl⟩ := run_ret_iff.mp h
      exact ⟨.error e, .throw, rfl⟩
    | call k next ih =>
      obtain ⟨r, rest, rfl, hnext⟩ := run_call_iff.mp h
      obtain ⟨o', hrun, rfl⟩ := ih r hnext
      exact ⟨o', .call hrun, rfl⟩
  · rintro ⟨r, h, rfl⟩
    induction h with
    | ret => exact .ret
    | throw => exact .ret
    | call _ ih => exact .call ih

theorem run_result_bind_iff {f : Except ε α → Prog Reply ε' β} {o : Except ε' β} :
    ((p.result : Prog Reply ε' (Except ε α)) >>= f).Run trace o ↔
      ∃ r first rest, p.Run first r ∧ (f r).Run rest o ∧ trace = first ++ rest := by
  rw [run_bind_iff]
  simp only [run_result_iff]
  constructor
  · rintro (⟨r, first, rest, ⟨r', hp, heq⟩, hf, rfl⟩ | ⟨e, ⟨r', -, heq⟩, -⟩)
    · cases heq
      exact ⟨r, first, rest, hp, hf, rfl⟩
    · cases heq
  · rintro ⟨r, first, rest, hp, hf, rfl⟩
    exact .inl ⟨r, first, rest, ⟨r, hp, rfl⟩, hf, rfl⟩

theorem run_perform_iff [Fault ε] {k : κ} {o : Except ε (Reply k)} :
    (perform k : Prog Reply ε (Reply k)).Run trace o ↔
      (∃ r, trace = [⟨k, some r⟩] ∧ o = .ok r) ∨ trace = [⟨k, none⟩] ∧ o = .error fault := by
  rw [perform, run_call_iff]
  constructor
  · rintro ⟨r, rest, rfl, h⟩
    cases r with
    | none =>
      obtain ⟨rfl, rfl⟩ := run_throw_iff.mp h
      exact .inr ⟨rfl, rfl⟩
    | some r =>
      obtain ⟨rfl, rfl⟩ := run_ret_iff.mp h
      exact .inl ⟨r, rfl, rfl⟩
  · rintro (⟨r, rfl, rfl⟩ | ⟨rfl, rfl⟩)
    · exact ⟨some r, [], rfl, .ret⟩
    · exact ⟨none, [], rfl, .throw⟩

theorem run_perform_bind_iff [Fault ε] {k : κ} {f : Reply k → Prog Reply ε β} {o : Except ε β} :
    (perform k >>= f).Run trace o ↔
      (∃ r rest, trace = ⟨k, some r⟩ :: rest ∧ (f r).Run rest o) ∨
        trace = [⟨k, none⟩] ∧ o = .error fault := by
  rw [run_bind_iff]
  simp only [run_perform_iff]
  constructor
  · rintro (⟨r, first, rest, ⟨r', rfl, heq⟩ | ⟨rfl, heq⟩, hf, rfl⟩ |
      ⟨e, ⟨r', rfl, heq⟩ | ⟨rfl, heq⟩, rfl⟩)
    · cases heq
      exact .inl ⟨r, rest, rfl, hf⟩
    · cases heq
    · cases heq
    · cases heq
      exact .inr ⟨rfl, rfl⟩
  · rintro (⟨r, rest, rfl, hf⟩ | ⟨rfl, rfl⟩)
    · exact .inl ⟨r, [⟨k, some r⟩], rest, .inl ⟨r, rfl, rfl⟩, hf, rfl⟩
    · exact .inr ⟨fault, .inr ⟨rfl, rfl⟩, rfl⟩

/-- Issues a command; none when it failed. -/
def issue (k : κ) : Prog Reply ε (Option (Reply k)) := .call k .ret

theorem run_issue_bind_iff {k : κ} {f : Option (Reply k) → Prog Reply ε β}
    {o : Except ε β} :
    (issue k >>= f).Run trace o ↔ ∃ r rest, trace = ⟨k, r⟩ :: rest ∧ (f r).Run rest o :=
  run_call_iff

theorem run_attempt_bind_iff {k : κ} {f : Unit → Prog Reply ε β} {o : Except ε β} :
    (attempt k >>= f).Run trace o ↔ ∃ r rest, trace = ⟨k, r⟩ :: rest ∧ (f ()).Run rest o :=
  run_call_iff

/-- What is left of a program after some of its commands were answered. -/
inductive Reaches : Prog Reply ε α → List (Answered Reply) → Prog Reply ε α → Prop where
  | refl {program} : Reaches program [] program
  | call {k next r trace q} : Reaches (next r) trace q → Reaches (.call k next) (⟨k, r⟩ :: trace) q

theorem Reaches.concat {k : κ} {next : Option (Reply k) → Prog Reply ε α}
    (h : p.Reaches trace (.call k next)) (r : Option (Reply k)) :
    p.Reaches (trace ++ [⟨k, r⟩]) (next r) := by
  generalize hq : Prog.call k next = q at h
  induction h with
  | refl =>
    cases hq
    exact .call .refl
  | call _ ih => exact .call (ih hq)

theorem reaches_ret_iff {a : α} {q : Prog Reply ε α} :
    Reaches (.ret a) trace q ↔ trace = [] ∧ q = .ret a := by
  constructor
  · intro h
    cases h
    exact ⟨rfl, rfl⟩
  · rintro ⟨rfl, rfl⟩
    exact .refl

theorem reaches_throw_iff {e : ε} {q : Prog Reply ε α} :
    Reaches (.throw e) trace q ↔ trace = [] ∧ q = .throw e := by
  constructor
  · intro h
    cases h
    exact ⟨rfl, rfl⟩
  · rintro ⟨rfl, rfl⟩
    exact .refl

theorem reaches_call_iff {k : κ} {next : Option (Reply k) → Prog Reply ε α} {q : Prog Reply ε α} :
    Reaches (.call k next) trace q ↔
      trace = [] ∧ q = .call k next ∨ ∃ r rest, trace = ⟨k, r⟩ :: rest ∧ Reaches (next r) rest q := by
  constructor
  · intro h
    cases h with
    | refl => exact .inl ⟨rfl, rfl⟩
    | call h => exact .inr ⟨_, _, rfl, h⟩
  · rintro (⟨rfl, rfl⟩ | ⟨r, rest, rfl, h⟩)
    · exact .refl
    · exact .call h

/-- A command that is performed has not been answered, or what follows is under way. -/
theorem Reaches.of_perform_bind [Fault ε] {k k' : κ} {f : Reply k → Prog Reply ε β}
    {next : Option (Reply k') → Prog Reply ε β}
    (h : (perform k >>= f).Reaches trace (.call k' next)) :
    trace = [] ∨ ∃ r rest, trace = ⟨k, some r⟩ :: rest ∧ (f r).Reaches rest (.call k' next) := by
  rcases reaches_call_iff.mp h with ⟨rfl, -⟩ | ⟨r, rest, rfl, hrest⟩
  · exact .inl rfl
  · cases r with
    | none =>
      obtain ⟨-, heq⟩ := reaches_throw_iff.mp hrest
      cases heq
    | some r => exact .inr ⟨r, rest, rfl, hrest⟩

theorem not_reaches_ret {a : α} {k : κ} {next : Option (Reply k) → Prog Reply ε α} :
    ¬ Reaches (.ret a) trace (.call k next) := by
  intro h
  cases h

theorem not_reaches_throw {e : ε} {k : κ} {next : Option (Reply k) → Prog Reply ε α} :
    ¬ Reaches (.throw e) trace (.call k next) := by
  intro h
  cases h

/-- A program in a sequence is under way, or it has thrown, or the rest of the sequence is under
way. -/
theorem Reaches.of_bind {q : Prog Reply ε β} (h : (p >>= f).Reaches trace q) :
    (∃ k next, p.Reaches trace (.call k next)) ∨
      (∃ e, p.Run trace (.error e) ∧ q = .throw e) ∨
      ∃ a first rest, p.Run first (.ok a) ∧ (f a).Reaches rest q ∧ trace = first ++ rest := by
  induction p generalizing trace with
  | ret a => exact .inr (.inr ⟨a, [], trace, .ret, h, rfl⟩)
  | throw e =>
    obtain ⟨rfl, rfl⟩ := reaches_throw_iff.mp h
    exact .inr (.inl ⟨e, .throw, rfl⟩)
  | call k next ih =>
    rcases reaches_call_iff.mp h with ⟨rfl, -⟩ | ⟨r, rest, rfl, hnext⟩
    · exact .inl ⟨k, next, .refl⟩
    · rcases ih r hnext with ⟨k', next', hp⟩ | ⟨e, hp, hq⟩ | ⟨a, first, last, hp, hf, rfl⟩
      · exact .inl ⟨k', next', .call hp⟩
      · exact .inr (.inl ⟨e, .call hp, hq⟩)
      · exact .inr (.inr ⟨a, ⟨k, r⟩ :: first, last, .call hp, hf, rfl⟩)

theorem Reaches.of_result_bind {f : Except ε α → Prog Reply ε' β} {q : Prog Reply ε' β}
    (h : ((p.result : Prog Reply ε' (Except ε α)) >>= f).Reaches trace q) :
    (∃ k next, p.Reaches trace (.call k next)) ∨
      ∃ r first rest, p.Run first r ∧ (f r).Reaches rest q ∧ trace = first ++ rest := by
  induction p generalizing trace with
  | ret a => exact .inr ⟨.ok a, [], trace, .ret, h, rfl⟩
  | throw e => exact .inr ⟨.error e, [], trace, .throw, h, rfl⟩
  | call k next ih =>
    rcases reaches_call_iff.mp h with ⟨rfl, -⟩ | ⟨r, rest, rfl, hnext⟩
    · exact .inl ⟨k, next, .refl⟩
    · rcases ih r hnext with ⟨k', next', hp⟩ | ⟨o, first, last, hp, hf, rfl⟩
      · exact .inl ⟨k', next', .call hp⟩
      · exact .inr ⟨o, ⟨k, r⟩ :: first, last, .call hp, hf, rfl⟩

/-- Every command that a program may come to issue is one of `S`. -/
def Uses (S : κ → Prop) : Prog Reply ε α → Prop
  | .ret _ | .throw _ => True
  | .call k next => S k ∧ ∀ r, (next r).Uses S

variable {S : κ → Prop}

theorem Uses.mono {T : κ → Prop} (hp : p.Uses S) (hST : ∀ k, S k → T k) : p.Uses T := by
  induction p with
  | ret a => trivial
  | throw e => trivial
  | call k next ih => exact ⟨hST k hp.1, fun r => ih r (hp.2 r)⟩

theorem Uses.bind (hp : p.Uses S) (hf : ∀ a, (f a).Uses S) : (p >>= f).Uses S := by
  induction p with
  | ret a => exact hf a
  | throw e => trivial
  | call k next ih => exact ⟨hp.1, fun r => ih r (hp.2 r)⟩

theorem Uses.result (hp : p.Uses S) : (p.result : Prog Reply ε' (Except ε α)).Uses S := by
  induction p with
  | ret a => trivial
  | throw e => trivial
  | call k next ih => exact ⟨hp.1, fun r => ih r (hp.2 r)⟩

theorem uses_perform [Fault ε] {k : κ} (hk : S k) : (perform k : Prog Reply ε (Reply k)).Uses S := by
  refine ⟨hk, fun r => ?_⟩
  cases r <;> trivial

theorem uses_attempt {k : κ} (hk : S k) : (attempt k : Prog Reply ε Unit).Uses S :=
  ⟨hk, fun _ => trivial⟩

theorem Run.uses {o : Except ε α} (h : p.Run trace o) (hp : p.Uses S) : ∀ a ∈ trace, S a.1 := by
  induction h with
  | ret => simp
  | throw => simp
  | call _ ih =>
    rw [List.forall_mem_cons]
    exact ⟨hp.1, ih (hp.2 _)⟩

theorem Reaches.uses {q : Prog Reply ε α} (h : p.Reaches trace q) (hp : p.Uses S) :
    ∀ a ∈ trace, S a.1 := by
  induction h with
  | refl => simp
  | call _ ih =>
    rw [List.forall_mem_cons]
    exact ⟨hp.1, ih (hp.2 _)⟩

/-- The program returns in every run in which only commands of `S` fail. -/
def Completes (S : κ → Prop) (p : Prog Reply ε α) : Prop :=
  ∀ trace o, p.Run trace o → (∀ a ∈ trace, a.2 = none → S a.1) → ∃ a, o = .ok a

theorem completes_ret (a : α) : (.ret a : Prog Reply ε α).Completes S := by
  intro trace o h _
  exact ⟨a, (run_ret_iff.mp h).2⟩

theorem completes_call {k : κ} {next : Option (Reply k) → Prog Reply ε α}
    (hsome : ∀ r, (next (some r)).Completes S) (hnone : S k → (next none).Completes S) :
    (.call k next : Prog Reply ε α).Completes S := by
  intro trace o h hfails
  obtain ⟨r, rest, rfl, hrest⟩ := run_call_iff.mp h
  obtain ⟨hk, htail⟩ := List.forall_mem_cons.mp hfails
  cases r with
  | none => exact hnone (hk rfl) rest o hrest htail
  | some r => exact hsome r rest o hrest htail

theorem completes_perform_bind [Fault ε] {k : κ} {f : Reply k → Prog Reply ε β} (hk : ¬ S k)
    (hf : ∀ r, (f r).Completes S) : (perform k >>= f).Completes S :=
  completes_call hf fun h => absurd h hk

theorem completes_issue_bind {k : κ} {f : Option (Reply k) → Prog Reply ε β}
    (hf : ∀ r, (f r).Completes S) : (issue k >>= f).Completes S :=
  completes_call (fun r => hf (some r)) fun _ => hf none

theorem completes_attempt_bind {k : κ} {f : Unit → Prog Reply ε β} (hf : (f ()).Completes S) :
    (attempt k >>= f).Completes S :=
  completes_call (fun _ => hf) fun _ => hf

theorem Completes.bind (hp : p.Completes S) (hf : ∀ a, (f a).Completes S) :
    (p >>= f).Completes S := by
  intro trace o h hfails
  rcases run_bind_iff.mp h with ⟨a, first, rest, hfirst, hrest, rfl⟩ | ⟨e, hfirst, rfl⟩
  · exact hf a rest o hrest fun b hb => hfails b (List.mem_append_right _ hb)
  · obtain ⟨a, heq⟩ := hp trace _ hfirst hfails
    exact absurd heq (by simp)

theorem not_completes_throw {e : ε} : ¬ (.throw e : Prog Reply ε α).Completes S := by
  intro h
  obtain ⟨a, heq⟩ := h [] _ .throw (by simp)
  exact absurd heq (by simp)

end Prog

end OpenRupiv.Lib
