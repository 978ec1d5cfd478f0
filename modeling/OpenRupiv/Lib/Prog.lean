import Mathlib.Tactic.Common

/-!
# Programs that issue commands

A program is a tree of commands.  It issues a command, goes on with the reply, and returns or
throws in the end.  A command can fail, and then there is no reply.
-/

namespace OpenRupiv.Lib

inductive Prog {κ : Type} (Reply : κ → Type) (ε α : Type) : Type where
  | ret (a : α)
  | throw (e : ε)
  | call (k : κ) (next : Option (Reply k) → Prog Reply ε α)

/-- The exception that a failed command raises. -/
class Fault (ε : Type) where
  fault : ε

export Fault (fault)

namespace Prog

variable {κ : Type} {Reply : κ → Type} {ε ε' α β : Type}

def bind : Prog Reply ε α → (α → Prog Reply ε β) → Prog Reply ε β
  | .ret a, f => f a
  | .throw e, _ => .throw e
  | .call k next, f => .call k fun r => (next r).bind f

instance : Monad (Prog Reply ε) where
  pure := .ret
  bind := .bind

/-- `try … catch`: the exception becomes a value. -/
def result : Prog Reply ε α → Prog Reply ε' (Except ε α)
  | .ret a => .ret (.ok a)
  | .throw e => .ret (.error e)
  | .call k next => .call k fun r => (next r).result

def ofExcept : Except ε α → Prog Reply ε α
  | .ok a => .ret a
  | .error e => .throw e

def perform [Fault ε] (k : κ) : Prog Reply ε (Reply k) :=
  .call k fun
    | some r => .ret r
    | none => .throw fault

/-- `try … finally`. -/
def tryFinally (p : Prog Reply ε α) (f : Prog Reply ε Unit) : Prog Reply ε α :=
  let outcome : Prog Reply ε (Except ε α) := p.result
  outcome.bind fun r => f.bind fun _ => ofExcept r

/-- Issues a command and does not look at the outcome. -/
def attempt (k : κ) : Prog Reply ε Unit := .call k fun _ => .ret ()

end Prog

end OpenRupiv.Lib
