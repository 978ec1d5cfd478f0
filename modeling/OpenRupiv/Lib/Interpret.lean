import OpenRupiv.Lib.Runs

/-!
# Commands that are programs

A program over coarse commands becomes a program over finer ones when each command is replaced by a
program that computes its reply.
-/

namespace OpenRupiv.Lib

namespace Prog

variable {κ κ' : Type} {Reply : κ → Type} {Reply' : κ' → Type} {ε α β γ : Type}

theorem bind_assoc (p : Prog Reply ε α) (f : α → Prog Reply ε β) (g : β → Prog Reply ε γ) :
    ((p >>= f) >>= g) = p >>= fun a => f a >>= g := by
  induction p with
  | ret a => rfl
  | throw e => rfl
  | call k next ih => exact congrArg (Prog.call k) (funext ih)

/-- Each command is replaced by the program of its reply. -/
def interpret (h : (k : κ) → Prog Reply' ε (Reply k)) : Prog Reply ε α → Prog Reply' ε α
  | .ret a => .ret a
  | .throw e => .throw e
  | .call k next => (h k).bind fun r => interpret h (next (some r))

variable (h : (k : κ) → Prog Reply' ε (Reply k))

@[simp] theorem interpret_ret (a : α) : interpret h (.ret a) = .ret a := rfl

@[simp] theorem interpret_throw (e : ε) :
    interpret h (.throw e : Prog Reply ε α) = .throw e := rfl

theorem interpret_bind (p : Prog Reply ε α) (f : α → Prog Reply ε β) :
    interpret h (p >>= f) = interpret h p >>= fun a => interpret h (f a) := by
  induction p with
  | ret a => rfl
  | throw e => rfl
  | call k next ih =>
    calc interpret h (.call k next >>= f)
        = h k >>= fun r => interpret h (next (some r) >>= f) := rfl
      _ = h k >>= fun r => interpret h (next (some r)) >>= fun a => interpret h (f a) := by
          simp only [ih]
      _ = interpret h (.call k next) >>= fun a => interpret h (f a) := (bind_assoc _ _ _).symm

@[simp] theorem interpret_perform_bind [Fault ε] (k : κ) (f : Reply k → Prog Reply ε β) :
    interpret h (perform k >>= f) = h k >>= fun r => interpret h (f r) := rfl

@[simp] theorem interpret_issue_bind (k : κ) (f : Option (Reply k) → Prog Reply ε β) :
    interpret h (issue k >>= f) = h k >>= fun r => interpret h (f (some r)) := rfl

@[simp] theorem interpret_attempt_bind (k : κ) (f : Unit → Prog Reply ε β) :
    interpret h (attempt k >>= f) = h k >>= fun _ => interpret h (f ()) := rfl

end Prog

end OpenRupiv.Lib
