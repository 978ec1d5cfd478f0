import OpenRupiv.Lib.Prog
import Mathlib.Logic.Function.Basic

/-!
# Transactions of concurrent clients

A database executes the statements of many clients one at a time, in any order.  A client runs a
program and has at most one connection.  Inside a transaction its writes are its own until the
commit, which installs them in one step; a statement sees what is committed and the writes of its
own transaction.  A statement may take locks; it waits while another client has one of them, and
the locks of a transaction are held until it ends.  Any command may fail.

`run` executes a schedule; the history of a world lists what happened, with the writes that each
command made visible.
-/

namespace OpenRupiv.Lib

/-- What a database stores, how its statements read, lock and write, and the services beside it. -/
structure Engine where
  Contents : Type
  Write : Type
  Lock : Type
  Stmt : Type
  Reply : Stmt → Type
  Ext : Type
  Answer : Ext → Type
  /-- What the environment decides when a command is executed. -/
  Choice : Type
  fails : Choice → Bool
  apply : Contents → Write → Contents
  locks : Choice → Contents → Stmt → List Lock
  /-- `none` when the statement is refused. -/
  exec : Choice → Contents → (s : Stmt) → Option (Reply s × List Write)
  answer : Choice → (x : Ext) → Option (Answer x)

inductive Session (W : Type) where
  | closed
  | idle
  | active (writes : List W)
  | aborted

def Session.isActive {W : Type} : Session W → Bool
  | .active _ => true
  | _ => false

inductive Cmd (E : Engine) where
  | connect
  | begin
  | commit
  | rollback
  | release
  /-- A statement on the client's connection. -/
  | tx (s : E.Stmt)
  /-- A statement on a connection of its own, committed at once. -/
  | query (s : E.Stmt)
  | ext (x : E.Ext)

variable {E : Engine} {Client : Type} {ε α : Type}

@[reducible] def Cmd.Reply : Cmd E → Type
  | .tx s => E.Reply s
  | .query s => E.Reply s
  | .ext x => E.Answer x
  | _ => Unit

def Engine.applyAll (E : Engine) (contents : E.Contents) (writes : List E.Write) : E.Contents :=
  writes.foldl E.apply contents

@[simp] theorem Engine.applyAll_nil (contents : E.Contents) : E.applyAll contents [] = contents := rfl

@[simp] theorem Engine.applyAll_cons (contents : E.Contents) (w : E.Write) (ws : List E.Write) :
    E.applyAll contents (w :: ws) = E.applyAll (E.apply contents w) ws := rfl

theorem Engine.applyAll_append (contents : E.Contents) (ws ws' : List E.Write) :
    E.applyAll contents (ws ++ ws') = E.applyAll (E.applyAll contents ws) ws' :=
  List.foldl_append

/-- What a command that succeeds does: its reply, the session after it, the locks it waits for,
whether it keeps them, and the writes that become visible. -/
structure Effect (E : Engine) (k : Cmd E) where
  reply : k.Reply
  session : Session E.Write
  locks : List E.Lock := []
  keeps : Bool := false
  writes : List E.Write := []

/-- A statement needs a transaction and a transaction needs a connection. -/
def proceed (choice : E.Choice) (contents : E.Contents) (session : Session E.Write) :
    (k : Cmd E) → Option (Effect E k)
  | .connect => some { reply := (), session := .idle }
  | .begin =>
      match session with
      | .idle => some { reply := (), session := .active [] }
      | _ => none
  | .commit =>
      match session with
      | .closed => none
      | .active writes => some { reply := (), session := .idle, writes }
      | _ => some { reply := (), session := .idle }
  | .rollback =>
      match session with
      | .closed => none
      | _ => some { reply := (), session := .idle }
  | .release => some { reply := (), session := .closed }
  | .tx s =>
      match session with
      | .active writes =>
          let view := E.applyAll contents writes
          (E.exec choice view s).map fun (reply, more) =>
            { reply, session := .active (writes ++ more), locks := E.locks choice view s, keeps := true }
      | _ => none
  | .query s =>
      (E.exec choice contents s).map fun (reply, writes) =>
        { reply, session, locks := E.locks choice contents s, writes }
  | .ext x => (E.answer choice x).map fun reply => { reply, session }

/-- Whether the environment can make the command fail; a service decides this itself. -/
def Cmd.fallible : Cmd E → Bool
  | .release | .ext _ => false
  | _ => true

/-- `none` when the command fails. -/
def perform (choice : E.Choice) (contents : E.Contents) (session : Session E.Write) (k : Cmd E) :
    Option (Effect E k) :=
  if k.fallible && E.fails choice then none else proceed choice contents session k

theorem proceed_of_perform {choice : E.Choice} {contents : E.Contents} {session : Session E.Write}
    {k : Cmd E} {eff : Effect E k} (h : perform choice contents session k = some eff) :
    proceed choice contents session k = some eff := by
  unfold perform at h
  split at h
  · exact absurd h (by simp)
  · exact h

/-- A transaction does not survive a failure of one of its commands. -/
def Session.afterFailure : Session E.Write → Cmd E → Session E.Write
  | .active _, .tx _ => .aborted
  | .closed, _ => .closed
  | _, .commit => .idle
  | _, .rollback => .idle
  | session, _ => session

/-- An entry of the history. -/
structure Label (E : Engine) (Client : Type) where
  client : Client
  cmd : Cmd E
  reply : Option cmd.Reply
  writes : List E.Write

structure World (E : Engine) (Client : Type) (ε α : Type) where
  procs : Client → Prog (Cmd.Reply (E := E)) ε α
  contents : E.Contents
  owner : E.Lock → Option Client
  session : Client → Session E.Write
  history : List (Label E Client)

namespace World

/-- No one holds a lock or has a connection, and nothing has happened. -/
def start (procs : Client → Prog (Cmd.Reply (E := E)) ε α) (contents : E.Contents) :
    World E Client ε α where
  procs
  contents
  owner _ := none
  session _ := .closed
  history := []

variable [DecidableEq Client] [DecidableEq E.Lock]

def available (W : World E Client ε α) (c : Client) {k : Cmd E} (eff : Effect E k) (l : E.Lock) :
    Bool :=
  W.owner l = none || (eff.keeps && W.owner l = some c)

def ownerAfter (W : World E Client ε α) (c : Client) (session : Session E.Write)
    (locks : List E.Lock) (l : E.Lock) : Option Client :=
  if l ∈ locks then some c
  else if session.isActive = false ∧ W.owner l = some c then none
  else W.owner l

/-- The world after a command of `c`. -/
def settle (W : World E Client ε α) (c : Client) (k : Cmd E)
    (next : Option k.Reply → Prog (Cmd.Reply (E := E)) ε α) (reply : Option k.Reply)
    (session : Session E.Write) (locks : List E.Lock) (writes : List E.Write) :
    World E Client ε α where
  procs := Function.update W.procs c (next reply)
  contents := E.applyAll W.contents writes
  owner := W.ownerAfter c session locks
  session := Function.update W.session c session
  history := W.history ++ [⟨c, k, reply, writes⟩]

/-- One command of the client `c`; `none` when it has none left or has to wait. -/
def step (W : World E Client ε α) (c : Client) (choice : E.Choice) : Option (World E Client ε α) :=
  match W.procs c with
  | .call k next =>
      match perform choice W.contents (W.session c) k with
      | none => some (W.settle c k next none ((W.session c).afterFailure k) [] [])
      | some eff =>
          if eff.locks.all (W.available c eff) then
            some (W.settle c k next (some eff.reply) eff.session
              (if eff.keeps then eff.locks else []) eff.writes)
          else none
  | _ => none

def run : List (Client × E.Choice) → World E Client ε α → Option (World E Client ε α)
  | [], W => some W
  | (c, choice) :: rest, W => (W.step c choice).bind (run rest)

theorem run_append (xs ys : List (Client × E.Choice)) (W : World E Client ε α) :
    run (xs ++ ys) W = (run xs W).bind (run ys) := by
  induction xs generalizing W with
  | nil => rfl
  | cons x xs ih =>
    rw [List.cons_append, run, run, Option.bind_assoc]
    congr 1
    funext V
    exact ih V

theorem run_concat {W V V' : World E Client ε α} {schedule : List (Client × E.Choice)} {c : Client}
    {choice : E.Choice} (hrun : run schedule W = some V) (hstep : V.step c choice = some V') :
    run (schedule ++ [(c, choice)]) W = some V' := by
  rw [run_append, hrun, Option.bind_some, run, hstep]
  rfl

/-- What holds at the start and is preserved by every command holds after every schedule. -/
theorem run_induction {motive : World E Client ε α → Prop} {W W' : World E Client ε α}
    {schedule : List (Client × E.Choice)} (h : run schedule W = some W') (base : motive W)
    (step : ∀ {V V' : World E Client ε α} {c : Client} {choice : E.Choice},
      V.step c choice = some V' → motive V → motive V') :
    motive W' := by
  induction schedule generalizing W with
  | nil =>
    rw [← Option.some.inj h]
    exact base
  | cons x rest ih =>
    obtain ⟨V, hV, hrest⟩ := Option.bind_eq_some_iff.mp h
    exact ih hrest (step hV base)

theorem history_prefix_of_run {W V V' : World E Client ε α} {schedule rest : List (Client × E.Choice)}
    (h : run (schedule ++ rest) W = some V') (hV : run schedule W = some V) :
    V.history <+: V'.history := by
  rw [run_append, hV, Option.bind_some] at h
  apply run_induction (motive := fun V' => V.history <+: V'.history) h (List.prefix_refl _)
  intro V₁ V₂ c choice hstep ih
  unfold step at hstep
  split at hstep
  · split at hstep
    · rw [← Option.some.inj hstep]
      exact ih.trans (List.prefix_append _ _)
    · split at hstep
      · rw [← Option.some.inj hstep]
        exact ih.trans (List.prefix_append _ _)
      · exact absurd hstep (by simp)
  · exact absurd hstep (by simp)

theorem step_cases {W W' : World E Client ε α} {c : Client} {choice : E.Choice}
    (h : W.step c choice = some W') :
    ∃ k next, W.procs c = .call k next ∧
      ((perform choice W.contents (W.session c) k = none ∧
          W' = W.settle c k next none ((W.session c).afterFailure k) [] []) ∨
        ∃ eff, perform choice W.contents (W.session c) k = some eff ∧
          (∀ l ∈ eff.locks, W.available c eff l = true) ∧
          W' = W.settle c k next (some eff.reply) eff.session
            (if eff.keeps then eff.locks else []) eff.writes) := by
  unfold step at h
  split at h
  · rename_i k next hproc
    refine ⟨k, next, hproc, ?_⟩
    split at h
    · rename_i hnone
      exact .inl ⟨hnone, (Option.some.inj h).symm⟩
    · rename_i eff heff
      split at h
      · rename_i havailable
        exact .inr ⟨eff, heff, List.all_eq_true.mp havailable, (Option.some.inj h).symm⟩
      · exact absurd h (by simp)
  · exact absurd h (by simp)

theorem reply_of_run {procs : Client → Prog (Cmd.Reply (E := E)) ε α} {contents : E.Contents}
    {schedule : List (Client × E.Choice)} {W : World E Client ε α}
    (h : run schedule (start procs contents) = some W) {x : E.Ext}
    (hx : ∀ choice, (E.answer choice x).isSome = true) {e : Label E Client} (he : e ∈ W.history)
    (hcmd : e.cmd = .ext x) : e.reply.isSome = true := by
  refine run_induction (motive := fun V => ∀ e ∈ V.history, e.cmd = .ext x → e.reply.isSome = true)
    h ?_ ?_ e he hcmd
  · intro e he
    exact absurd he List.not_mem_nil
  · intro V V' c choice hstep ih e he hcmd
    obtain ⟨k, next, -, ⟨hfailed, rfl⟩ | ⟨eff, -, -, rfl⟩⟩ := step_cases hstep
    · rcases List.mem_append.mp he with he | he
      · exact ih e he hcmd
      · cases List.mem_singleton.mp he
        obtain rfl : k = .ext x := hcmd
        obtain ⟨r, hr⟩ := Option.isSome_iff_exists.mp (hx choice)
        exact absurd hfailed (by simp [perform, Cmd.fallible, proceed, hr])
    · rcases List.mem_append.mp he with he | he
      · exact ih e he hcmd
      · cases List.mem_singleton.mp he
        rfl

end World

end OpenRupiv.Lib
