import OpenRupiv.Lib.Confinement
import Mathlib.Data.List.Forall2
import Mathlib.Data.List.Induction
import Mathlib.Data.Option.Basic

/-!
# Two runs that look alike

Some clients of a database are observed, and the others write nothing that the observed ones can
see.  An `Observation` says what is seen of the contents and which statements stand for each other.
In the run without the unobserved clients the observed ones then see what they saw with them
(`noninterference`), as long as the statements whose outcome depends on more than what is observed
succeed or fail alike.
-/

namespace OpenRupiv.Lib

structure Observation (E : Engine) where
  Same : E.Contents → E.Contents → Prop
  SameWrite : E.Write → E.Write → Prop
  SameStmt : E.Stmt → E.Stmt → Prop
  SameReply : (s s' : E.Stmt) → E.Reply s → E.Reply s' → Prop
  /-- The write changes nothing that is observed. -/
  hidden : E.Write → Prop
  /-- What is observed decides whether the statement is refused. -/
  settled : E.Stmt → Prop
  apply : ∀ {κ κ' w w'}, SameWrite w w' → Same κ κ' → Same (E.apply κ w) (E.apply κ' w')
  hide : ∀ {κ κ' w}, hidden w → Same κ κ' → Same (E.apply κ w) κ'
  locks : ∀ {choice κ κ' s s'}, SameStmt s s' → Same κ κ' →
    E.locks choice κ s = E.locks choice κ' s'
  exec : ∀ {choice κ κ' s s' r r' ws ws'}, SameStmt s s' → Same κ κ' →
    E.exec choice κ s = some (r, ws) → E.exec choice κ' s' = some (r', ws') →
    SameReply s s' r r' ∧ List.Forall₂ SameWrite ws ws'
  refuses : ∀ {choice κ κ' s s'}, settled s → SameStmt s s' → Same κ κ' →
    (E.exec choice κ s).isSome = (E.exec choice κ' s').isSome
  /-- A statement that is not settled waits for no one. -/
  unlocked : ∀ {choice κ s s'}, ¬settled s → SameStmt s s' → E.locks choice κ s' = []

variable {E : Engine} {Client : Type} {ε α β : Type}

def Cmd.isStmt : Cmd E → Bool
  | .tx _ | .query _ => true
  | _ => false

namespace Observation

variable (O : Observation E)

inductive SameCmd : Cmd E → Cmd E → Prop where
  | service {k} : k.isStmt = false → SameCmd k k
  | tx {s s'} : O.SameStmt s s' → SameCmd (.tx s) (.tx s')
  | query {s s'} : O.SameStmt s s' → SameCmd (.query s) (.query s')

inductive Alike : (k k' : Cmd E) → Option k.Reply → Option k'.Reply → Prop where
  | service {k} (r : Option k.Reply) : k.isStmt = false → Alike k k r r
  | tx {s s'} {r : Option (E.Reply s)} {r' : Option (E.Reply s')} :
      Option.Rel (O.SameReply s s') r r' → Alike (.tx s) (.tx s') r r'
  | query {s s'} {r : Option (E.Reply s)} {r' : Option (E.Reply s')} :
      Option.Rel (O.SameReply s s') r r' → Alike (.query s) (.query s') r r'

inductive SameSession : Session E.Write → Session E.Write → Prop where
  | closed : SameSession .closed .closed
  | idle : SameSession .idle .idle
  | active {ws ws'} : List.Forall₂ O.SameWrite ws ws' → SameSession (.active ws) (.active ws')
  | aborted : SameSession .aborted .aborted

/-- The programs issue commands that stand for each other, and go on so after replies that do. -/
inductive Similar (R : Except ε α → Except ε α → Prop) :
    Prog (Cmd.Reply (E := E)) ε α → Prog (Cmd.Reply (E := E)) ε α → Prop where
  | ret {a a'} : R (.ok a) (.ok a') → Similar R (.ret a) (.ret a')
  | throw {e e'} : R (.error e) (.error e') → Similar R (.throw e) (.throw e')
  | call {k k' next next'} : O.SameCmd k k' →
      (∀ r r', O.Alike k k' r r' → Similar R (next r) (next' r')) →
      Similar R (.call k next) (.call k' next')

/-- The command is a statement that is not settled. -/
def Unsettled : Cmd E → Prop
  | .tx s | .query s => ¬O.settled s
  | _ => False

/-- What two observed entries have in common. -/
structure SameLabel (e e' : Label E Client) : Prop where
  client : e.client = e'.client
  cmd : O.SameCmd e.cmd e'.cmd
  reply : O.Alike e.cmd e'.cmd e.reply e'.reply
  writes : List.Forall₂ O.SameWrite e.writes e'.writes

def FailAlike (history history' : List (Label E Client)) : Prop :=
  ∀ p ∈ history.zip history', O.Unsettled p.1.cmd → p.1.reply.isSome = p.2.reply.isSome

/-- What two outcomes of commands have in common. -/
inductive SameEffect (k k' : Cmd E) : Option (Effect E k) → Option (Effect E k') → Prop where
  | failed : SameEffect k k' none none
  | done {eff eff'} : O.Alike k k' (some eff.reply) (some eff'.reply) →
      O.SameSession eff.session eff'.session → eff.locks = eff'.locks → eff.keeps = eff'.keeps →
      List.Forall₂ O.SameWrite eff.writes eff'.writes → SameEffect k k' (some eff) (some eff')

end Observation

namespace Observation

variable {O : Observation E} {κ κ' : E.Contents} {σ σ' : Session E.Write} {k k' : Cmd E}

section Programs

variable {R R' : Except ε α → Except ε α → Prop} {S : Except ε β → Except ε β → Prop}

theorem Similar.bind {p p' : Prog (Cmd.Reply (E := E)) ε β}
    {f f' : β → Prog (Cmd.Reply (E := E)) ε α} (h : O.Similar S p p')
    (hok : ∀ b b', S (.ok b) (.ok b') → O.Similar R (f b) (f' b'))
    (herror : ∀ e e', S (.error e) (.error e') → R (.error e) (.error e')) :
    O.Similar R (p >>= f) (p' >>= f') := by
  induction h with
  | ret hs => exact hok _ _ hs
  | throw hs => exact .throw (herror _ _ hs)
  | call hk _ ih => exact .call hk ih

theorem Similar.result {p p' : Prog (Cmd.Reply (E := E)) ε β} (h : O.Similar S p p')
    {ε' : Type} {T : Except ε' (Except ε β) → Except ε' (Except ε β) → Prop}
    (hT : ∀ r r', S r r' → T (.ok r) (.ok r')) : O.Similar T p.result p'.result := by
  induction h with
  | ret hs => exact .ret (hT _ _ hs)
  | throw hs => exact .ret (hT _ _ hs)
  | call hk _ ih => exact .call hk ih

theorem Similar.mono {p p' : Prog (Cmd.Reply (E := E)) ε α} (h : O.Similar R p p')
    (hR : ∀ r r', R r r' → R' r r') : O.Similar R' p p' := by
  induction h with
  | ret hr => exact .ret (hR _ _ hr)
  | throw hr => exact .throw (hR _ _ hr)
  | call hk _ ih => exact .call hk ih

theorem Alike.service_eq {r : Option k.Reply} {r' : Option k.Reply} (h : O.Alike k k r r')
    (hk : k.isStmt = false) : r = r' := by
  cases h with
  | service => rfl
  | tx | query => exact absurd hk (by simp [Cmd.isStmt])

theorem similar_service_bind [Fault ε] {f f' : k.Reply → Prog (Cmd.Reply (E := E)) ε α}
    (hk : k.isStmt = false) (hf : ∀ r, O.Similar R (f r) (f' r))
    (hfault : R (.error fault) (.error fault)) :
    O.Similar R (Prog.perform (κ := Cmd E) k >>= f) (Prog.perform (κ := Cmd E) k >>= f') := by
  apply Similar.call (.service hk)
  intro r r' h
  obtain rfl := h.service_eq hk
  cases r with
  | none => exact .throw hfault
  | some r => exact hf r

theorem similar_attempt_bind {f f' : Unit → Prog (Cmd.Reply (E := E)) ε α} (hk : k.isStmt = false)
    (hf : O.Similar R (f ()) (f' ())) :
    O.Similar R (Prog.attempt (κ := Cmd E) k >>= f) (Prog.attempt (κ := Cmd E) k >>= f') := by
  apply Similar.call (.service hk)
  intro r r' _
  exact hf

theorem similar_tx_bind [Fault ε] {s s' : E.Stmt} {f : E.Reply s → Prog (Cmd.Reply (E := E)) ε α}
    {f' : E.Reply s' → Prog (Cmd.Reply (E := E)) ε α} (hs : O.SameStmt s s')
    (hf : ∀ r r', O.SameReply s s' r r' → O.Similar R (f r) (f' r'))
    (hfault : R (.error fault) (.error fault)) :
    O.Similar R (Prog.perform (κ := Cmd E) (.tx s) >>= f)
      (Prog.perform (κ := Cmd E) (.tx s') >>= f') := by
  apply Similar.call (.tx hs)
  intro r r' h
  cases h with
  | service _ hk => exact absurd hk (by simp [Cmd.isStmt])
  | tx hr =>
    cases hr with
    | none => exact .throw hfault
    | some hr => exact hf _ _ hr

theorem similar_query_bind [Fault ε] {s s' : E.Stmt} {f : E.Reply s → Prog (Cmd.Reply (E := E)) ε α}
    {f' : E.Reply s' → Prog (Cmd.Reply (E := E)) ε α} (hs : O.SameStmt s s')
    (hf : ∀ r r', O.SameReply s s' r r' → O.Similar R (f r) (f' r'))
    (hfault : R (.error fault) (.error fault)) :
    O.Similar R (Prog.perform (κ := Cmd E) (.query s) >>= f)
      (Prog.perform (κ := Cmd E) (.query s') >>= f') := by
  apply Similar.call (.query hs)
  intro r r' h
  cases h with
  | service _ hk => exact absurd hk (by simp [Cmd.isStmt])
  | query hr =>
    cases hr with
    | none => exact .throw hfault
    | some hr => exact hf _ _ hr

end Programs

section Steps

theorem same_applyAll {ws ws' : List E.Write} (hws : List.Forall₂ O.SameWrite ws ws')
    (h : O.Same κ κ') : O.Same (E.applyAll κ ws) (E.applyAll κ' ws') := by
  induction hws generalizing κ κ' with
  | nil => exact h
  | cons hw _ ih => exact ih (O.apply hw h)

theorem same_applyAll_hidden {ws : List E.Write} (hws : ∀ w ∈ ws, O.hidden w) (h : O.Same κ κ') :
    O.Same (E.applyAll κ ws) κ' := by
  induction ws generalizing κ with
  | nil => exact h
  | cons w ws ih =>
    rw [List.forall_mem_cons] at hws
    exact ih hws.2 (O.hide hws.1 h)

private theorem sameExec (choice : E.Choice) {s s' : E.Stmt} (hs : O.SameStmt s s')
    (hκ : O.Same κ κ')
    (hunsettled : ¬O.settled s → (E.exec choice κ s).isSome = (E.exec choice κ' s').isSome) :
    Option.Rel (fun e e' => O.SameReply s s' e.1 e'.1 ∧ List.Forall₂ O.SameWrite e.2 e'.2)
      (E.exec choice κ s) (E.exec choice κ' s') := by
  have hsome : (E.exec choice κ s).isSome = (E.exec choice κ' s').isSome := by
    by_cases hsettled : O.settled s
    · exact O.refuses hsettled hs hκ
    · exact hunsettled hsettled
  cases hexec : E.exec choice κ s with
  | none =>
    cases hexec' : E.exec choice κ' s' with
    | none => exact .none
    | some e' => simp [hexec, hexec'] at hsome
  | some e =>
    cases hexec' : E.exec choice κ' s' with
    | none => simp [hexec, hexec'] at hsome
    | some e' => exact .some (O.exec hs hκ hexec hexec')

/-- Commands that stand for each other do the same, if they succeed or fail alike. -/
theorem sameEffect_perform (choice : E.Choice) (hk : O.SameCmd k k') (hκ : O.Same κ κ')
    (hσ : O.SameSession σ σ')
    (hunsettled : O.Unsettled k →
      (perform choice κ σ k).isSome = (perform choice κ' σ' k').isSome) :
    O.SameEffect k k' (perform choice κ σ k) (perform choice κ' σ' k') := by
  cases hk with
  | @service k hk =>
    by_cases hfail : (k.fallible && E.fails choice) = true
    · rw [perform, perform, if_pos hfail, if_pos hfail]
      exact .failed
    rw [perform, perform, if_neg hfail, if_neg hfail]
    cases k with
    | connect => exact .done (.service _ rfl) .idle rfl rfl .nil
    | begin =>
      cases hσ with
      | idle => exact .done (.service _ rfl) (.active .nil) rfl rfl .nil
      | _ => exact .failed
    | commit =>
      cases hσ with
      | closed => exact .failed
      | active hws => exact .done (.service _ rfl) .idle rfl rfl hws
      | _ => exact .done (.service _ rfl) .idle rfl rfl .nil
    | rollback =>
      cases hσ with
      | closed => exact .failed
      | _ => exact .done (.service _ rfl) .idle rfl rfl .nil
    | release => exact .done (.service _ rfl) .closed rfl rfl .nil
    | tx s | query s => exact absurd hk (by simp [Cmd.isStmt])
    | ext x =>
      rw [proceed, proceed]
      cases E.answer choice x with
      | none => exact .failed
      | some r => exact .done (.service _ rfl) hσ rfl rfl .nil
  | @tx s s' hs =>
    by_cases hfail : E.fails choice = true
    · simp only [perform, Cmd.fallible, hfail, Bool.and_self, if_true]
      exact .failed
    simp only [perform, Cmd.fallible, hfail, Bool.and_false, Bool.false_eq_true, if_false]
      at hunsettled ⊢
    cases hσ with
    | @active ws ws' hws =>
      have hview := same_applyAll hws hκ
      have hexec := sameExec choice hs hview fun h => by
        simpa [proceed] using hunsettled h
      rw [proceed, proceed]
      generalize E.exec choice (E.applyAll κ ws) s = e at hexec ⊢
      generalize E.exec choice (E.applyAll κ' ws') s' = e' at hexec ⊢
      cases hexec with
      | none => exact .failed
      | some h =>
        exact .done (.tx (.some h.1)) (.active (List.rel_append hws h.2)) (O.locks hs hview) rfl .nil
    | _ => exact .failed
  | @query s s' hs =>
    by_cases hfail : E.fails choice = true
    · simp only [perform, Cmd.fallible, hfail, Bool.and_self, if_true]
      exact .failed
    simp only [perform, Cmd.fallible, hfail, Bool.and_false, Bool.false_eq_true, if_false]
      at hunsettled ⊢
    have hexec := sameExec choice hs hκ fun h => by
      simpa [proceed] using hunsettled h
    rw [proceed, proceed]
    generalize E.exec choice κ s = e, E.exec choice κ' s' = e' at hexec ⊢
    cases hexec with
    | none => exact .failed
    | some h => exact .done (.query (.some h.1)) hσ (O.locks hs hκ) rfl h.2

private theorem locks_of_sameEffect {choice : E.Choice} (hk : O.SameCmd k k') (hκ : O.Same κ κ')
    (hσ : O.SameSession σ σ') {eff' : Effect E k'} (heff' : perform choice κ' σ' k' = some eff') :
    eff'.locks = [] ∨ ∃ eff, perform choice κ σ k = some eff ∧ eff.locks = eff'.locks ∧
      eff.keeps = eff'.keeps := by
  by_cases hunsettled : O.Unsettled k
  · left
    have hproceed := proceed_of_perform heff'
    cases hk with
    | service => cases k <;> first | exact False.elim hunsettled | contradiction
    | tx hs =>
      cases σ' with
      | active ws =>
        obtain ⟨⟨r, more⟩, -, heq⟩ := Option.map_eq_some_iff.mp hproceed
        rw [← heq]
        exact O.unlocked hunsettled hs
      | _ => exact absurd hproceed (by simp [proceed])
    | query hs =>
      obtain ⟨⟨r, more⟩, -, heq⟩ := Option.map_eq_some_iff.mp hproceed
      rw [← heq]
      exact O.unlocked hunsettled hs
  · right
    have hsame := sameEffect_perform choice hk hκ hσ fun h => absurd h hunsettled
    rw [heff'] at hsame
    generalize perform choice κ σ k = outcome at hsame ⊢
    cases hsame with
    | done _ _ hlocks hkeeps _ => exact ⟨_, rfl, hlocks, hkeeps⟩

private theorem sameSession_afterFailure (hk : O.SameCmd k k') (hσ : O.SameSession σ σ') :
    O.SameSession (σ.afterFailure k) (σ'.afterFailure k') := by
  cases hk with
  | @service k hk =>
    cases hσ with
    | closed => exact .closed
    | idle => cases k <;> exact .idle
    | aborted => cases k <;> constructor
    | active hws => cases k <;> first | exact .idle | exact .aborted | exact .active hws
  | tx => cases hσ <;> constructor
  | query =>
    cases hσ with
    | active hws => exact .active hws
    | _ => constructor

end Steps

section Runs

variable [DecidableEq Client] [DecidableEq E.Lock] {low : Client → Bool}
  {W V W' V' : World E Client ε α} {c : Client}

def observed (low : Client → Bool) (history : List (Label E Client)) : List (Label E Client) :=
  history.filter fun e => low e.client

/-- The second run is the first one without the clients that are not observed. -/
structure Related (O : Observation E) (low : Client → Bool) (W W' : World E Client ε α) : Prop where
  procs : ∀ c, low c = true → O.Similar Eq (W.procs c) (W'.procs c)
  contents : O.Same W.contents W'.contents
  session : ∀ c, low c = true → O.SameSession (W.session c) (W'.session c)
  owner : ∀ l c, W'.owner l = some c → W.owner l = some c ∧ low c = true
  history : List.Forall₂ O.SameLabel (observed low W.history) W'.history

private theorem Related.hidden (h : O.Related low W W') (hc : low c = false) {choice : E.Choice}
    (hstep : W.step c choice = some V)
    (hdeeds : Deeds (fun c k => low c = true ∨ ∀ w, k.Writes w → O.hidden w) V) :
    O.Related low V W' := by
  have hsettle : ∀ {k next reply session locks writes},
      V = W.settle c k next reply session locks writes →
      (∀ l ∈ locks, ∀ c', W.owner l = some c' → c' = c) → O.Related low V W' := by
    intro k next reply session locks writes heq hlocks
    subst heq
    have hne : ∀ c', low c' = true → c' ≠ c := by
      intro c' hc' heq
      rw [heq, hc] at hc'
      exact absurd hc' (by simp)
    have hwrites : ∀ w ∈ writes, O.hidden w := by
      intro w hw
      obtain ⟨k', hk', hw'⟩ := hdeeds.writes ⟨c, k, reply, writes⟩
        (List.mem_append_right _ (List.mem_singleton_self _)) w hw
      rcases hk' with hlow | hhidden
      · exact absurd hc (by simp_all)
      · exact hhidden w hw'
    constructor
    · intro c' hc'
      simpa [World.settle, hne c' hc'] using h.procs c' hc'
    · exact same_applyAll_hidden hwrites h.contents
    · intro c' hc'
      simpa [World.settle, hne c' hc'] using h.session c' hc'
    · intro l c' howner
      obtain ⟨hsame, hlow⟩ := h.owner l c' howner
      refine ⟨?_, hlow⟩
      have hmem : l ∉ locks := fun hl => hne c' hlow (hlocks l hl c' hsame)
      simp [World.settle, World.ownerAfter, hmem, hsame, hne c' hlow]
    · simpa [World.settle, observed, List.filter_append, hc] using h.history
  obtain ⟨k, next, hproc, ⟨-, heq⟩ | ⟨eff, heff, havailable, heq⟩⟩ := World.step_cases hstep
  · apply hsettle heq
    intro l hl
    exact absurd hl List.not_mem_nil
  · apply hsettle heq
    intro l hl c' howner
    cases hkeeps : eff.keeps with
    | false => simp [hkeeps] at hl
    | true =>
      have := havailable l (by simpa [hkeeps] using hl)
      simp only [World.available, howner, Bool.or_eq_true, Bool.and_eq_true, decide_eq_true_eq,
        reduceCtorEq, false_or, Option.some.injEq] at this
      exact this.2

private theorem Related.settle (h : O.Related low W W') (hc : low c = true) {k k' : Cmd E}
    {next : Option k.Reply → Prog (Cmd.Reply (E := E)) ε α}
    {next' : Option k'.Reply → Prog (Cmd.Reply (E := E)) ε α} {reply : Option k.Reply}
    {reply' : Option k'.Reply} {session session' : Session E.Write} {locks : List E.Lock}
    {writes writes' : List E.Write} (hk : O.SameCmd k k') (hreply : O.Alike k k' reply reply')
    (hnext : O.Similar Eq (next reply) (next' reply')) (hsession : O.SameSession session session')
    (hwrites : List.Forall₂ O.SameWrite writes writes') :
    O.Related low (W.settle c k next reply session locks writes)
      (W'.settle c k' next' reply' session' locks writes') where
  procs c' hc' := by
    by_cases heq : c' = c
    · subst heq
      simpa [World.settle] using hnext
    · simpa [World.settle, heq] using h.procs c' hc'
  contents := same_applyAll hwrites h.contents
  session c' hc' := by
    by_cases heq : c' = c
    · subst heq
      simpa [World.settle] using hsession
    · simpa [World.settle, heq] using h.session c' hc'
  owner l c' howner := by
    have hactive : session.isActive = session'.isActive := by
      cases hsession <;> rfl
    simp only [World.settle, World.ownerAfter] at howner ⊢
    by_cases hl : l ∈ locks
    · rw [if_pos hl] at howner ⊢
      obtain rfl := Option.some.inj howner
      exact ⟨rfl, hc⟩
    · rw [if_neg hl] at howner ⊢
      split at howner
      · exact absurd howner (by simp)
      · rename_i hends
        obtain ⟨hsame, hlow⟩ := h.owner l c' howner
        refine ⟨?_, hlow⟩
        rw [if_neg, hsame]
        intro hends'
        apply hends
        rw [← hactive, howner]
        rw [hsame] at hends'
        exact hends'
  history := by
    have hlabel : List.Forall₂ O.SameLabel [(⟨c, k, reply, writes⟩ : Label E Client)]
        [⟨c, k', reply', writes'⟩] := .cons ⟨rfl, hk, hreply, hwrites⟩ .nil
    have happend := List.rel_append h.history hlabel
    simpa [World.settle, observed, List.filter_append, hc] using happend

omit [DecidableEq Client] [DecidableEq E.Lock] in
private theorem failAlike_last {history history' : List (Label E Client)} {e e' : Label E Client}
    (h : List.Forall₂ O.SameLabel (observed low history) history') (hc : low e.client = true)
    (halike : O.FailAlike (observed low (history ++ [e])) (history' ++ [e']))
    (hunsettled : O.Unsettled e.cmd) : e.reply.isSome = e'.reply.isSome := by
  apply halike (e, e') _ hunsettled
  have hobserved : observed low (history ++ [e]) = observed low history ++ [e] := by
    simp [observed, List.filter_append, hc]
  rw [hobserved, List.zip_append h.length_eq]
  exact List.mem_append_right _ (List.mem_singleton_self _)

private theorem Related.observed (h : O.Related low W W') (hc : low c = true) {choice : E.Choice}
    (hstep : W.step c choice = some V) :
    ∃ V', W'.step c choice = some V' ∧
      (O.FailAlike (observed low V.history) V'.history → O.Related low V V') := by
  obtain ⟨k, next, hproc, hcases⟩ := World.step_cases hstep
  have hsimilar := h.procs c hc
  rw [hproc] at hsimilar
  generalize hproc' : W'.procs c = p' at hsimilar
  cases hsimilar with
  | @call _ k' _ next' hk hnext =>
    have hσ := h.session c hc
    cases heff' : perform choice W'.contents (W'.session c) k' with
    | none =>
      refine ⟨W'.settle c k' next' none ((W'.session c).afterFailure k') [] [],
        by rw [World.step, hproc']; simp only [heff'], ?_⟩
      intro halike
      rcases hcases with ⟨hfailed, rfl⟩ | ⟨eff, heff, -, rfl⟩
      · have hreply : O.Alike k k' none none := by
          cases hk with
          | service hk => exact .service none hk
          | tx => exact .tx .none
          | query => exact .query .none
        exact h.settle hc hk hreply (hnext _ _ hreply) (sameSession_afterFailure hk hσ) .nil
      · have hsame := sameEffect_perform choice hk h.contents hσ fun hunsettled => by
          have := failAlike_last h.history hc halike hunsettled
          exact absurd this (by simp)
        rw [heff, heff'] at hsame
        cases hsame
    | some eff' =>
      have havailable' : eff'.locks.all (W'.available c eff') = true := by
        apply List.all_eq_true.mpr
        intro l hl
        rcases locks_of_sameEffect hk h.contents hσ heff' with hnil | ⟨eff, heff, hlocks, hkeeps⟩
        · exact absurd (hnil ▸ hl) List.not_mem_nil
        rcases hcases with ⟨hfailed, -⟩ | ⟨eff₁, heff₁, havailable, -⟩
        · rw [hfailed] at heff
          exact absurd heff (by simp)
        · rw [heff₁] at heff
          obtain rfl := Option.some.inj heff
          have hfree := havailable l (hlocks ▸ hl)
          cases howner : W'.owner l with
          | none => simp [World.available, howner]
          | some c' =>
            have hsame := (h.owner l c' howner).1
            simp only [World.available, hsame, howner, hkeeps] at hfree ⊢
            exact hfree
      refine ⟨W'.settle c k' next' (some eff'.reply) eff'.session
        (if eff'.keeps then eff'.locks else []) eff'.writes,
        by rw [World.step, hproc']; simp only [heff', havailable', if_true], ?_⟩
      intro halike
      have hsome : O.Unsettled k → (perform choice W.contents (W.session c) k).isSome =
          (perform choice W'.contents (W'.session c) k').isSome := by
        intro hunsettled
        rcases hcases with ⟨hfailed, rfl⟩ | ⟨eff, heff, -, rfl⟩
        · have := failAlike_last h.history hc halike hunsettled
          exact absurd this (by simp)
        · rw [heff, heff']
          rfl
      have hsame := sameEffect_perform choice hk h.contents hσ hsome
      rcases hcases with ⟨hfailed, rfl⟩ | ⟨eff, heff, -, rfl⟩
      · rw [hfailed, heff'] at hsame
        cases hsame
      · rw [heff, heff'] at hsame
        cases hsame with
        | done hreply hsession hlocks hkeeps hwrites =>
          rw [← hlocks, ← hkeeps]
          exact h.settle hc hk hreply (hnext _ _ hreply) hsession hwrites

variable {procs : Client → Prog (Cmd.Reply (E := E)) ε α} {contents : E.Contents}
  {schedule : List (Client × E.Choice)}

theorem noninterference (hcontents : O.Same contents contents)
    (hlow : ∀ c, low c = true → O.Similar Eq (procs c) (procs c))
    (hhigh : ∀ c, low c = false → Confined (fun k => ∀ w, k.Writes w → O.hidden w) (procs c))
    (halike : ∀ s, s <+: schedule → ∀ V V', World.run s (.start procs contents) = some V →
      World.run (s.filter fun x => low x.1) (.start procs contents) = some V' →
      O.FailAlike (observed low V.history) V'.history)
    (hrun : World.run schedule (.start procs contents) = some W) :
    ∃ W', World.run (schedule.filter fun x => low x.1) (.start procs contents) = some W' ∧
      O.Related low W W' := by
  induction schedule using List.reverseRecOn generalizing W with
  | nil =>
    refine ⟨_, rfl, ?_⟩
    rw [← Option.some.inj hrun]
    constructor
    · exact hlow
    · exact hcontents
    · intro _ _
      exact .closed
    · intro l c howner
      exact absurd howner (by simp [World.start])
    · exact .nil
  | append_singleton s x ih =>
    obtain ⟨c, choice⟩ := x
    have hrun' := hrun
    rw [World.run_append, Option.bind_eq_some_iff] at hrun'
    obtain ⟨V, hV, hstep⟩ := hrun'
    simp only [World.run, Option.bind_eq_some_iff] at hstep
    obtain ⟨V₁, hstep, heq⟩ := hstep
    obtain rfl := Option.some.inj heq
    obtain ⟨V', hV', hrelated⟩ := ih (fun s' hs' => halike s' (hs'.trans (List.prefix_append _ _))) hV
    cases hc : low c with
    | false =>
      refine ⟨V', by simpa [hc] using hV', ?_⟩
      apply hrelated.hidden hc hstep
      apply deeds_of_run _ hrun
      intro c'
      cases hc' : low c' with
      | false => exact (hhigh c' hc').mono fun k hk => .inr hk
      | true => exact confined_of_forall fun k => .inl rfl
    | true =>
      obtain ⟨V₁', hstep', hnext⟩ := hrelated.observed hc hstep
      have hrun₂ : World.run ((s ++ [(c, choice)]).filter fun x => low x.1) (.start procs contents) =
          some V₁' := by
        rw [List.filter_append]
        simpa [hc] using World.run_concat hV' hstep'
      exact ⟨V₁', hrun₂, hnext (halike _ (List.prefix_refl _) _ _ hrun hrun₂)⟩

end Runs

end Observation

end OpenRupiv.Lib
