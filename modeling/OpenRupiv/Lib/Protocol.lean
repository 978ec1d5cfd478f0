import OpenRupiv.Lib.Transactions
import Mathlib.Data.List.Basic
import Mathlib.Data.List.Induction

/-!
# Protocols and the programs that follow them

A protocol says, client by client, which commands may come next, what they may reply and which
writes they may make visible, depending on a phase and on the committed contents at that moment.

`Safe` says of a program that it follows the protocol whatever the other clients do, as long as
they leave alone what the locks of this one protect.  Every program follows the protocol with the
others, because each of them writes only under locks: the history of a world is a trace of the
protocol (`exists_trace`).
-/

namespace OpenRupiv.Lib

/-- What the locks protect: `touches w l` when the write changes something under `l`, and
`Same l κ κ'` when both contents agree on what is under `l`. -/
structure Protection (E : Engine) where
  Same : E.Lock → E.Contents → E.Contents → Prop
  touches : E.Write → E.Lock → Prop
  refl : ∀ l κ, Same l κ κ
  trans : ∀ {l κ κ' κ''}, Same l κ κ' → Same l κ' κ'' → Same l κ κ''
  apply : ∀ {w l} κ, ¬touches w l → Same l κ (E.apply κ w)

variable {E : Engine}

theorem Protection.applyAll (G : Protection E) {l : E.Lock} {ws : List E.Write}
    (h : ∀ w ∈ ws, ¬G.touches w l) (κ : E.Contents) : G.Same l κ (E.applyAll κ ws) := by
  induction ws generalizing κ with
  | nil => exact G.refl l κ
  | cons w ws ih =>
    rw [List.forall_mem_cons] at h
    exact G.trans (G.apply κ h.1) (ih h.2 _)

/-- Commands that only manage the connection, and statements whose writes are not visible yet. -/
def Cmd.quiet : Cmd E → Bool
  | .connect | .begin | .rollback | .release | .tx _ => true
  | _ => false

structure Protocol (E : Engine) (Client Phase : Type) where
  Step : Client → Phase → E.Contents → (k : Cmd E) → Option k.Reply → List E.Write → Phase → Prop
  /-- The phase after a command that failed. -/
  fail : Phase → Phase
  /-- Services that may be used in every phase. -/
  silent : E.Ext → Bool
  failed : ∀ {c φ κ k}, Step c φ κ k none [] (fail φ)
  /-- A failed rollback ends the transaction too. -/
  unrolled : ∀ {c φ κ}, Step c φ κ .rollback none [] φ
  passed : ∀ {c φ κ k} (r : k.Reply), k.quiet = true → Step c φ κ k (some r) [] φ
  served : ∀ {c φ κ x} (r : E.Answer x), silent x = true → Step c φ κ (.ext x) (some r) [] φ

variable {Client Phase : Type}

/-- The runs of a protocol from `init`, each client starting in its phase of `begins`. -/
inductive Protocol.Trace [DecidableEq Client] (P : Protocol E Client Phase) (begins : Client → Phase)
    (init : E.Contents) : List (Label E Client) → (Client → Phase) → E.Contents → Prop where
  | nil : P.Trace begins init [] begins init
  | snoc {history phases contents φ} {e : Label E Client} :
      P.Trace begins init history phases contents →
      P.Step e.client (phases e.client) contents e.cmd e.reply e.writes φ →
      P.Trace begins init (history ++ [e]) (Function.update phases e.client φ)
        (E.applyAll contents e.writes)

/-- An entry of a history that grew is the new one or an entry of the history before. -/
theorem concat_eq_split {α : Type} {history p s : List α} {e d : α}
    (h : history ++ [e] = p ++ d :: s) :
    (s = [] ∧ history = p ∧ e = d) ∨ ∃ s', s = s' ++ [e] ∧ history = p ++ d :: s' := by
  cases s using List.reverseRecOn with
  | nil =>
    obtain ⟨rfl, he⟩ := List.append_inj' h rfl
    exact .inl ⟨rfl, rfl, List.head_eq_of_cons_eq he⟩
  | append_singleton s e' =>
    rw [← List.cons_append, ← List.append_assoc] at h
    obtain ⟨rfl, he⟩ := List.append_inj' h rfl
    cases List.head_eq_of_cons_eq he
    exact .inr ⟨s, rfl, rfl⟩

namespace Protocol.Trace

variable [DecidableEq Client] {P : Protocol E Client Phase} {begins phases : Client → Phase}
  {init contents : E.Contents} {history : List (Label E Client)}

theorem contents_eq (h : P.Trace begins init history phases contents) :
    contents = E.applyAll init (history.flatMap (·.writes)) := by
  induction h with
  | nil => rfl
  | snoc _ _ ih => rw [List.flatMap_append, E.applyAll_append, ← ih, List.flatMap_singleton]

theorem split {p s : List (Label E Client)} {e : Label E Client}
    (h : P.Trace begins init (p ++ e :: s) phases contents) :
    ∃ phases' contents' φ, P.Trace begins init p phases' contents' ∧
      P.Step e.client (phases' e.client) contents' e.cmd e.reply e.writes φ ∧
      P.Trace begins init (p ++ [e]) (Function.update phases' e.client φ)
        (E.applyAll contents' e.writes) := by
  generalize hhistory : p ++ e :: s = history at h
  induction h generalizing s with
  | nil => exact absurd hhistory (by simp)
  | snoc hp hstep ih =>
    rcases concat_eq_split hhistory.symm with ⟨rfl, rfl, rfl⟩ | ⟨s', rfl, rfl⟩
    · exact ⟨_, _, _, hp, hstep, .snoc hp hstep⟩
    · exact ih rfl

theorem phase_invariant {motive : Client → Phase → List (Label E Client) → Prop}
    (h : P.Trace begins init history phases contents) (base : ∀ c, motive c (begins c) [])
    (own : ∀ {history phases contents φ} {e : Label E Client},
      P.Trace begins init history phases contents →
      P.Step e.client (phases e.client) contents e.cmd e.reply e.writes φ →
      motive e.client (phases e.client) history → motive e.client φ (history ++ [e]))
    (other : ∀ {history c φ} {e : Label E Client}, e.client ≠ c →
      motive c φ history → motive c φ (history ++ [e])) (c : Client) :
    motive c (phases c) history := by
  induction h with
  | nil => exact base c
  | @snoc history phases contents φ e hp hstep ih =>
    by_cases hc : c = e.client
    · subst hc
      rw [Function.update_self]
      exact own hp hstep ih
    · rw [Function.update_of_ne hc]
      exact other (Ne.symm hc) ih

end Protocol.Trace

/-- What a client knows of its own connection. -/
structure Local (E : Engine) where
  session : Session E.Write
  held : List E.Lock

def Local.closed : Local E := ⟨.closed, []⟩

def Local.after (σ : Local E) (session : Session E.Write) (locks : List E.Lock) : Local E where
  session
  held := if session.isActive then σ.held ++ locks else []

def Local.afterFailure (σ : Local E) (k : Cmd E) : Local E :=
  σ.after (σ.session.afterFailure k) []

def Local.afterEffect (σ : Local E) {k : Cmd E} (eff : Effect E k) : Local E :=
  σ.after eff.session (if eff.keeps then eff.locks else [])

/-- The other clients may have done something between `κ` and `κ'`. -/
def Local.Rely (G : Protection E) (σ : Local E) (κ κ' : E.Contents) : Prop :=
  ∀ l ∈ σ.held, G.Same l κ κ'

variable {ε ε' α β : Type}

/-- The program follows the protocol from the phase `φ` on, and `Q` holds when it ends. -/
def Safe (G : Protection E) (P : Protocol E Client Phase) (c : Client)
    (Q : Except ε α → Phase → Local E → E.Contents → Prop) :
    Prog (Cmd.Reply (E := E)) ε α → Phase → Local E → E.Contents → Prop
  | .ret a, φ, σ, κ => Q (.ok a) φ σ κ
  | .throw e, φ, σ, κ => Q (.error e) φ σ κ
  | .call k next, φ, σ, κ => ∀ κ', σ.Rely G κ κ' → ∀ choice : E.Choice,
      (perform choice κ' σ.session k = none →
        ∃ φ', P.Step c φ κ' k none [] φ' ∧
          Safe G P c Q (next none) φ' (σ.afterFailure k) κ') ∧
      ∀ eff, perform choice κ' σ.session k = some eff →
        (∀ w ∈ eff.writes, ∀ l, G.touches w l → l ∈ σ.held ∨ l ∈ eff.locks) ∧
        ∃ φ', P.Step c φ κ' k (some eff.reply) eff.writes φ' ∧
          Safe G P c Q (next (some eff.reply)) φ' (σ.afterEffect eff) (E.applyAll κ' eff.writes)

variable {G : Protection E} {P : Protocol E Client Phase} {c : Client}
  {Q Q' : Except ε α → Phase → Local E → E.Contents → Prop}
  {φ : Phase} {σ : Local E} {κ : E.Contents}

@[simp] theorem safe_ret {a : α} : Safe G P c Q (.ret a) φ σ κ ↔ Q (.ok a) φ σ κ := Iff.rfl

@[simp] theorem safe_pure {a : α} : Safe G P c Q (pure a) φ σ κ ↔ Q (.ok a) φ σ κ := Iff.rfl

@[simp] theorem safe_throw {e : ε} : Safe G P c Q (.throw e) φ σ κ ↔ Q (.error e) φ σ κ := Iff.rfl

@[simp] theorem safe_ofExcept {x : Except ε α} :
    Safe G P c Q (.ofExcept x) φ σ κ ↔ Q x φ σ κ := by
  cases x <;> exact Iff.rfl

theorem Safe.mono {p : Prog (Cmd.Reply (E := E)) ε α} (h : Safe G P c Q p φ σ κ)
    (hQ : ∀ r φ σ κ, Q r φ σ κ → Q' r φ σ κ) : Safe G P c Q' p φ σ κ := by
  induction p generalizing φ σ κ with
  | ret a => exact hQ _ _ _ _ h
  | throw e => exact hQ _ _ _ _ h
  | call k next ih =>
    intro κ' hrely choice
    obtain ⟨hnone, hsome⟩ := h κ' hrely choice
    constructor
    · intro heff
      obtain ⟨φ', hstep, hnext⟩ := hnone heff
      exact ⟨φ', hstep, ih _ hnext⟩
    · intro eff heff
      obtain ⟨hguard, φ', hstep, hnext⟩ := hsome eff heff
      exact ⟨hguard, φ', hstep, ih _ hnext⟩

private theorem safe_call_congr {ε₁ ε₂ α₁ α₂ : Type} {k : Cmd E}
    {next₁ : Option k.Reply → Prog (Cmd.Reply (E := E)) ε₁ α₁}
    {next₂ : Option k.Reply → Prog (Cmd.Reply (E := E)) ε₂ α₂}
    {Q₁ : Except ε₁ α₁ → Phase → Local E → E.Contents → Prop}
    {Q₂ : Except ε₂ α₂ → Phase → Local E → E.Contents → Prop}
    (h : ∀ r φ σ κ, Safe G P c Q₁ (next₁ r) φ σ κ ↔ Safe G P c Q₂ (next₂ r) φ σ κ) :
    Safe G P c Q₁ (.call k next₁) φ σ κ ↔ Safe G P c Q₂ (.call k next₂) φ σ κ := by
  simp only [Safe, h]

/-- It is safe to go on with `f`, unless an exception was thrown. -/
def Continues (G : Protection E) (P : Protocol E Client Phase) (c : Client)
    (Q : Except ε α → Phase → Local E → E.Contents → Prop)
    (f : β → Prog (Cmd.Reply (E := E)) ε α) : Except ε β → Phase → Local E → E.Contents → Prop
  | .ok b, φ, σ, κ => Safe G P c Q (f b) φ σ κ
  | .error e, φ, σ, κ => Q (.error e) φ σ κ

@[simp] theorem continues_ok {f : β → Prog (Cmd.Reply (E := E)) ε α} {b : β} :
    Continues G P c Q f (.ok b) φ σ κ ↔ Safe G P c Q (f b) φ σ κ := Iff.rfl

@[simp] theorem continues_error {f : β → Prog (Cmd.Reply (E := E)) ε α} {e : ε} :
    Continues G P c Q f (.error e) φ σ κ ↔ Q (.error e) φ σ κ := Iff.rfl

theorem safe_bind {p : Prog (Cmd.Reply (E := E)) ε β} {f : β → Prog (Cmd.Reply (E := E)) ε α} :
    Safe G P c Q (p >>= f) φ σ κ ↔ Safe G P c (Continues G P c Q f) p φ σ κ := by
  induction p generalizing φ σ κ with
  | ret a => exact Iff.rfl
  | throw e => exact Iff.rfl
  | call k next ih => exact safe_call_congr fun r φ σ κ => ih r

theorem safe_result {p : Prog (Cmd.Reply (E := E)) ε' β}
    {R : Except ε (Except ε' β) → Phase → Local E → E.Contents → Prop} :
    Safe G P c R p.result φ σ κ ↔ Safe G P c (fun r => R (.ok r)) p φ σ κ := by
  induction p generalizing φ σ κ with
  | ret a => exact Iff.rfl
  | throw e => exact Iff.rfl
  | call k next ih => exact safe_call_congr fun r φ σ κ => ih r

theorem Local.Rely.trans {κ' κ'' : E.Contents} (h : σ.Rely G κ κ') (h' : σ.Rely G κ' κ'') :
    σ.Rely G κ κ'' :=
  fun l hl => G.trans (h l hl) (h' l hl)

/-- What the other clients do does not disturb a program that waits for its turn. -/
theorem Safe.rely {p : Prog (Cmd.Reply (E := E)) ε α} (h : Safe G P c Q p φ σ κ)
    (hQ : ∀ r φ σ κ κ', σ.Rely G κ κ' → Q r φ σ κ → Q r φ σ κ') {κ' : E.Contents}
    (hrely : σ.Rely G κ κ') : Safe G P c Q p φ σ κ' := by
  cases p with
  | ret a => exact hQ _ _ _ _ _ hrely h
  | throw e => exact hQ _ _ _ _ _ hrely h
  | call k next =>
    intro κ'' hrely'
    exact h κ'' (hrely.trans hrely')

section Commands

variable [Fault ε] {held : List E.Lock} {ws : List E.Write}

theorem safe_perform {k : Cmd E} {Q : Except ε k.Reply → Phase → Local E → E.Contents → Prop}
    (hdone : ∀ κ' choice eff, σ.Rely G κ κ' → perform choice κ' σ.session k = some eff →
      (∀ w ∈ eff.writes, ∀ l, G.touches w l → l ∈ σ.held ∨ l ∈ eff.locks) ∧
      ∃ φ', P.Step c φ κ' k (some eff.reply) eff.writes φ' ∧
        Q (.ok eff.reply) φ' (σ.afterEffect eff) (E.applyAll κ' eff.writes))
    (hfail : ∀ κ' choice, perform choice κ' σ.session k = none →
      Q (.error fault) (P.fail φ) (σ.afterFailure k) κ') :
    Safe G P c Q (.perform k) φ σ κ := by
  intro κ' hrely choice
  constructor
  · intro heff
    exact ⟨P.fail φ, P.failed, hfail κ' choice heff⟩
  · intro eff heff
    exact hdone κ' choice eff hrely heff

theorem safe_connect {Q : Except ε Unit → Phase → Local E → E.Contents → Prop}
    (hdone : ∀ κ', Q (.ok ()) φ ⟨.idle, []⟩ κ')
    (hfail : ∀ κ', Q (.error fault) (P.fail φ) .closed κ') :
    Safe G P c Q (.perform (κ := Cmd E) .connect) φ .closed κ := by
  apply safe_perform
  · intro κ' choice eff _ heff
    have h := Option.some.inj (proceed_of_perform heff)
    subst h
    refine ⟨by simp, φ, ?_, hdone κ'⟩
    exact P.passed (k := .connect) () rfl
  · intro κ' _ _
    exact hfail κ'

theorem safe_begin {Q : Except ε Unit → Phase → Local E → E.Contents → Prop}
    (hdone : ∀ κ', Q (.ok ()) φ ⟨.active [], []⟩ κ')
    (hfail : ∀ κ', Q (.error fault) (P.fail φ) ⟨.idle, []⟩ κ') :
    Safe G P c Q (.perform (κ := Cmd E) .begin) φ ⟨.idle, []⟩ κ := by
  apply safe_perform
  · intro κ' choice eff _ heff
    have h := Option.some.inj (proceed_of_perform heff)
    subst h
    refine ⟨by simp, φ, ?_, hdone κ'⟩
    exact P.passed (k := .begin) () rfl
  · intro κ' _ _
    exact hfail κ'

/-- The writes of a transaction become visible at once, under the locks it holds. -/
theorem safe_commit {Q : Except ε Unit → Phase → Local E → E.Contents → Prop}
    (hlocks : ∀ w ∈ ws, ∀ l, G.touches w l → l ∈ held)
    (hdone : ∀ κ', (Local.mk (.active ws) held).Rely G κ κ' →
      ∃ φ', P.Step c φ κ' .commit (some ()) ws φ' ∧ Q (.ok ()) φ' ⟨.idle, []⟩ (E.applyAll κ' ws))
    (hfail : ∀ κ', Q (.error fault) (P.fail φ) ⟨.idle, []⟩ κ') :
    Safe G P c Q (.perform (κ := Cmd E) .commit) φ ⟨.active ws, held⟩ κ := by
  apply safe_perform
  · intro κ' choice eff hrely heff
    have h := Option.some.inj (proceed_of_perform heff)
    subst h
    refine ⟨fun w hw l hl => .inl (hlocks w hw l hl), ?_⟩
    exact hdone κ' hrely
  · intro κ' _ _
    exact hfail κ'

theorem safe_tx {s : E.Stmt} {Q : Except ε (E.Reply s) → Phase → Local E → E.Contents → Prop}
    (hdone : ∀ κ' choice r more, (Local.mk (.active ws) held).Rely G κ κ' →
      E.exec choice (E.applyAll κ' ws) s = some (r, more) →
      ∃ φ', P.Step c φ κ' (.tx s) (some r) [] φ' ∧
        Q (.ok r) φ' ⟨.active (ws ++ more), held ++ E.locks choice (E.applyAll κ' ws) s⟩ κ')
    (hfail : ∀ κ', Q (.error fault) (P.fail φ) ⟨.aborted, []⟩ κ') :
    Safe G P c Q (.perform (κ := Cmd E) (.tx s)) φ ⟨.active ws, held⟩ κ := by
  apply safe_perform
  · intro κ' choice eff hrely heff
    obtain ⟨⟨r, more⟩, hexec, h⟩ := Option.map_eq_some_iff.mp (proceed_of_perform heff)
    subst h
    refine ⟨by simp, ?_⟩
    exact hdone κ' choice r more hrely hexec
  · intro κ' _ _
    exact hfail κ'

theorem safe_tx_aborted {s : E.Stmt} {Q : Except ε (E.Reply s) → Phase → Local E → E.Contents → Prop}
    (hfail : ∀ κ', Q (.error fault) (P.fail φ) ⟨.aborted, []⟩ κ') :
    Safe G P c Q (.perform (κ := Cmd E) (.tx s)) φ ⟨.aborted, []⟩ κ := by
  apply safe_perform
  · intro κ' choice eff _ heff
    exact absurd (proceed_of_perform heff) (by simp [proceed])
  · intro κ' _ _
    exact hfail κ'

theorem safe_commit_aborted {Q : Except ε Unit → Phase → Local E → E.Contents → Prop}
    (hdone : ∀ κ', ∃ φ', P.Step c φ κ' .commit (some ()) [] φ' ∧ Q (.ok ()) φ' ⟨.idle, []⟩ κ')
    (hfail : ∀ κ', Q (.error fault) (P.fail φ) ⟨.idle, []⟩ κ') :
    Safe G P c Q (.perform (κ := Cmd E) .commit) φ ⟨.aborted, []⟩ κ := by
  apply safe_perform
  · intro κ' choice eff _ heff
    have h := Option.some.inj (proceed_of_perform heff)
    subst h
    exact ⟨by simp, hdone κ'⟩
  · intro κ' _ _
    exact hfail κ'

theorem safe_query {s : E.Stmt} {Q : Except ε (E.Reply s) → Phase → Local E → E.Contents → Prop}
    (hdone : ∀ κ' choice r writes, E.exec choice κ' s = some (r, writes) →
      (∀ w ∈ writes, ∀ l, G.touches w l → l ∈ E.locks choice κ' s) ∧
      ∃ φ', P.Step c φ κ' (.query s) (some r) writes φ' ∧
        Q (.ok r) φ' .closed (E.applyAll κ' writes))
    (hfail : ∀ κ', Q (.error fault) (P.fail φ) .closed κ') :
    Safe G P c Q (.perform (κ := Cmd E) (.query s)) φ .closed κ := by
  apply safe_perform
  · intro κ' choice eff _ heff
    obtain ⟨⟨r, writes⟩, hexec, h⟩ := Option.map_eq_some_iff.mp (proceed_of_perform heff)
    subst h
    obtain ⟨hlocks, hstep⟩ := hdone κ' choice r writes hexec
    refine ⟨fun w hw l hl => .inr (hlocks w hw l hl), ?_⟩
    exact hstep
  · intro κ' _ _
    exact hfail κ'

theorem safe_ext {x : E.Ext} {Q : Except ε (E.Answer x) → Phase → Local E → E.Contents → Prop}
    (hσ : σ.session.isActive = true ∨ σ.held = [])
    (hdone : ∀ κ' choice r, σ.Rely G κ κ' → E.answer choice x = some r →
      ∃ φ', P.Step c φ κ' (.ext x) (some r) [] φ' ∧ Q (.ok r) φ' σ κ')
    (hfail : ∀ κ' choice, E.answer choice x = none → Q (.error fault) (P.fail φ) σ κ') :
    Safe G P c Q (.perform (κ := Cmd E) (.ext x)) φ σ κ := by
  have hafter : σ.after σ.session [] = σ := by
    obtain ⟨session, held⟩ := σ
    cases hactive : session.isActive with
    | true => simp [Local.after, hactive]
    | false =>
      have hheld : held = [] := by simpa [hactive] using hσ
      simp [Local.after, hactive, hheld]
  apply safe_perform
  · intro κ' choice eff hrely heff
    obtain ⟨r, hanswer, h⟩ := Option.map_eq_some_iff.mp (proceed_of_perform heff)
    subst h
    refine ⟨by simp, ?_⟩
    obtain ⟨φ', hstep, hQ⟩ := hdone κ' choice r hrely hanswer
    refine ⟨φ', hstep, ?_⟩
    show Q (.ok r) φ' (σ.after σ.session []) κ'
    rwa [hafter]
  · intro κ' choice heff
    have hanswer : E.answer choice x = none := by
      simpa [perform, Cmd.fallible, proceed] using heff
    have hsame : σ.session.afterFailure (.ext x) = σ.session := by
      cases σ.session <;> rfl
    rw [Local.afterFailure, hsame, hafter]
    exact hfail κ' choice hanswer

omit [Fault ε] in
theorem safe_rollback {Q : Except ε Unit → Phase → Local E → E.Contents → Prop}
    (hdone : ∀ σ' κ', Q (.ok ()) φ σ' κ') :
    Safe G P c Q (.attempt (κ := Cmd E) .rollback) φ σ κ := by
  intro κ' _ choice
  constructor
  · intro _
    exact ⟨φ, P.unrolled, hdone _ _⟩
  · intro eff heff
    have hwrites : eff.writes = [] := by
      have h := proceed_of_perform heff
      cases hs : σ.session <;> simp only [proceed, hs] at h
      · exact absurd h (by simp)
      all_goals
        rw [← Option.some.inj h]
    rw [hwrites]
    refine ⟨by simp, φ, ?_, hdone _ _⟩
    exact P.passed (k := .rollback) () rfl

theorem safe_release {Q : Except ε Unit → Phase → Local E → E.Contents → Prop}
    (hdone : ∀ κ', Q (.ok ()) φ .closed κ') :
    Safe G P c Q (.perform (κ := Cmd E) .release) φ σ κ := by
  apply safe_perform
  · intro κ' choice eff _ heff
    have h := Option.some.inj (proceed_of_perform heff)
    subst h
    refine ⟨by simp, φ, ?_, hdone κ'⟩
    exact P.passed (k := .release) () rfl
  · intro κ' choice heff
    exact absurd heff (by simp [perform, Cmd.fallible, proceed])

end Commands

section Soundness

variable [DecidableEq Client] [DecidableEq E.Lock] {begins : Client → Phase} {init : E.Contents}

/-- Every client is safe in its phase, and owns the locks it relies on. -/
private structure Following (G : Protection E) (P : Protocol E Client Phase)
    (begins : Client → Phase) (init : E.Contents) (W : World E Client ε α)
    (phases : Client → Phase) (view : Client → Local E) : Prop where
  trace : P.Trace begins init W.history phases W.contents
  safe : ∀ c, Safe G P c (fun _ _ _ _ => True) (W.procs c) (phases c) (view c) W.contents
  session : ∀ c, (view c).session = W.session c
  owner : ∀ c, ∀ l ∈ (view c).held, W.owner l = some c

variable {W W' : World E Client ε α} {phases : Client → Phase} {view : Client → Local E}

/-- A command of `c` leaves the others their locks, and does not touch what is under them. -/
private theorem Following.settle (h : Following G P begins init W phases view) {k : Cmd E}
    {next : Option k.Reply → Prog (Cmd.Reply (E := E)) ε α} {reply : Option k.Reply}
    {session : Session E.Write} {locks : List E.Lock} {writes : List E.Write} {φ' : Phase}
    (hstep : P.Step c (phases c) W.contents k reply writes φ')
    (hsafe : Safe G P c (fun _ _ _ _ => True) (next reply) φ' ((view c).after session locks)
      (E.applyAll W.contents writes))
    (hfree : ∀ l ∈ locks, W.owner l = none ∨ W.owner l = some c)
    (hguard : ∀ w ∈ writes, ∀ l, G.touches w l → W.owner l = none ∨ W.owner l = some c) :
    Following G P begins init (W.settle c k next reply session locks writes)
      (Function.update phases c φ') (Function.update view c ((view c).after session locks)) := by
  -- what another client holds is neither taken nor written
  have hother : ∀ c', c' ≠ c → ∀ l ∈ (view c').held,
      l ∉ locks ∧ W.owner l = some c' ∧ ∀ w ∈ writes, ¬G.touches w l := by
    intro c' hc' l hl
    have howner := h.owner c' l hl
    refine ⟨fun hmem => ?_, howner, fun w hw htouch => ?_⟩
    · have := hfree l hmem
      simp_all
    · have := hguard w hw l htouch
      simp_all
  constructor
  · exact .snoc h.trace hstep
  · intro c'
    by_cases hc' : c' = c
    · subst hc'
      simpa [World.settle] using hsafe
    · have hrely : (view c').Rely G W.contents (E.applyAll W.contents writes) :=
        fun l hl => G.applyAll (hother c' hc' l hl).2.2 _
      have := (h.safe c').rely (fun _ _ _ _ _ _ _ => trivial) hrely
      simpa [World.settle, hc'] using this
  · intro c'
    by_cases hc' : c' = c
    · subst hc'
      simp [World.settle, Local.after]
    · simpa [World.settle, hc'] using h.session c'
  · intro c' l hl
    by_cases hc' : c' = c
    · subst hc'
      simp only [Function.update_self, Local.after] at hl
      cases hactive : session.isActive with
      | false => simp [hactive] at hl
      | true =>
        simp only [hactive, if_true, List.mem_append] at hl
        by_cases hmem : l ∈ locks
        · simp [World.settle, World.ownerAfter, hmem]
        · have := h.owner c' l (by simpa [hmem] using hl)
          simp [World.settle, World.ownerAfter, hmem, hactive, this]
    · rw [Function.update_of_ne hc'] at hl
      obtain ⟨hmem, howner, -⟩ := hother c' hc' l hl
      simp [World.settle, World.ownerAfter, hmem, howner, hc']

private theorem Following.step (h : Following G P begins init W phases view) {choice : E.Choice}
    (hstep : W.step c choice = some W') :
    ∃ phases' view', Following G P begins init W' phases' view' := by
  obtain ⟨k, next, hproc, hcases⟩ := World.step_cases hstep
  have hsafe := h.safe c
  rw [hproc] at hsafe
  obtain ⟨hnone, hsome⟩ := hsafe W.contents (fun l _ => G.refl l _) choice
  rw [h.session c] at hnone hsome
  rcases hcases with ⟨hfail, rfl⟩ | ⟨eff, heff, havailable, rfl⟩
  · obtain ⟨φ', hmove, hnext⟩ := hnone hfail
    rw [Local.afterFailure, h.session c] at hnext
    exact ⟨_, _, h.settle hmove hnext (by simp) (by simp)⟩
  · obtain ⟨hguard, φ', hmove, hnext⟩ := hsome eff heff
    have hfree : ∀ l ∈ eff.locks, W.owner l = none ∨ W.owner l = some c := by
      intro l hl
      have := havailable l hl
      simp only [World.available, Bool.or_eq_true, decide_eq_true_eq, Bool.and_eq_true] at this
      exact this.imp_right And.right
    refine ⟨_, _, h.settle hmove hnext ?_ ?_⟩
    · intro l hl
      cases hkeeps : eff.keeps with
      | false => simp [hkeeps] at hl
      | true => exact hfree l (by simpa [hkeeps] using hl)
    · intro w hw l htouch
      rcases hguard w hw l htouch with hl | hl
      · exact .inr (h.owner c l hl)
      · exact hfree l hl

/-- When every client's program is safe, what happens is a trace of the protocol. -/
theorem exists_trace {procs : Client → Prog (Cmd.Reply (E := E)) ε α}
    (hsafe : ∀ c, Safe G P c (fun _ _ _ _ => True) (procs c) (begins c) .closed init)
    {schedule : List (Client × E.Choice)}
    (hrun : World.run schedule (.start procs init) = some W) :
    ∃ phases, P.Trace begins init W.history phases W.contents := by
  have hfollowing : ∃ phases view, Following G P begins init W phases view := by
    refine World.run_induction (motive := fun V => ∃ phases view,
      Following G P begins init V phases view) hrun ?_ ?_
    · refine ⟨begins, fun _ => .closed, .nil, hsafe, fun _ => rfl, ?_⟩
      intro c l hl
      exact absurd hl List.not_mem_nil
    · rintro V V' c choice hstep ⟨phases, view, h⟩
      exact h.step hstep
  obtain ⟨phases, view, h⟩ := hfollowing
  exact ⟨phases, h.trace⟩

end Soundness

end OpenRupiv.Lib
