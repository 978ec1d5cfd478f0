import OpenRupiv.Audit.Attributes
import OpenRupiv.Runtime.Follows

/-!
# What a history says of its calls

The writes that a call made visible, the answer that it gave, and what the phases of the protocol
say about both.
-/

namespace OpenRupiv.Runtime

open Js Lib Spec Audit

variable {pg : Postgres} {host : Host} {sha256 : String → String} {Client : Type}

abbrev History (pg : Postgres) (Client : Type) : Type := List (Label (store pg) Client)

/-- The call of `c` made the write visible. -/
def Committed (history : History pg Client) (c : Client) (w : Write) : Prop :=
  ∃ e ∈ history, e.client = c ∧ w ∈ e.writes

/-- The call of `c` was answered. -/
def Returned (history : History pg Client) (c : Client) (answer : Except Thrown Response) : Prop :=
  (⟨c, .ext (.returned answer), some (), []⟩ : Label (store pg) Client) ∈ history

def answers (history : History pg Client) : List (Client × Except Thrown Response) :=
  history.filterMap fun
    | ⟨c, .ext (.returned answer), some _, []⟩ => some (c, answer)
    | _ => none

theorem returned_of_mem_answers {history : History pg Client} {c : Client}
    {answer : Except Thrown Response} (h : (c, answer) ∈ answers history) :
    Returned history c answer := by
  obtain ⟨e, he, heq⟩ := List.mem_filterMap.mp h
  split at heq
  · cases Option.some.inj heq
    exact he
  · exact absurd heq (by simp)

def Write.auditRow : Write → Option AuditRow
  | .insertAudit row => some row
  | _ => none

/-- The rows that a history adds to the audit log. -/
def appended (history : History pg Client) : List AuditRow :=
  history.flatMap fun e => e.writes.filterMap Write.auditRow

def Write.isAudit (w : Write) : Bool := w.auditRow.isSome

theorem committed_append {history : History pg Client} {e : Label (store pg) Client} {c : Client}
    {w : Write} :
    Committed (history ++ [e]) c w ↔ Committed history c w ∨ e.client = c ∧ w ∈ e.writes := by
  simp only [Committed, List.mem_append, List.mem_singleton]
  constructor
  · rintro ⟨d, hd | rfl, hw⟩
    · exact .inl ⟨d, hd, hw⟩
    · exact .inr hw
  · rintro (⟨d, hd, hw⟩ | hw)
    · exact ⟨d, .inl hd, hw⟩
    · exact ⟨e, .inr rfl, hw⟩

theorem Committed.mono {p history : History pg Client} {c : Client} {w : Write}
    (h : Committed p c w) (hp : p ⊆ history) : Committed history c w := by
  obtain ⟨e, he, hw⟩ := h
  exact ⟨e, hp he, hw⟩

theorem audit_applyAll (contents : Contents) (ws : List Write) :
    ((store pg).applyAll contents ws).audit = contents.audit ++ ws.filterMap Write.auditRow := by
  induction ws generalizing contents with
  | nil => exact (List.append_nil _).symm
  | cons w ws ih =>
    rw [Engine.applyAll_cons, ih]
    cases w with
    | insertAudit row => exact List.append_assoc contents.audit [row] _
    | _ => rfl

theorem audit_eq_appended {history : History pg Client} {init contents : Contents}
    (h : contents = (store pg).applyAll init (history.flatMap (·.writes))) :
    contents.audit = init.audit ++ appended history := by
  rw [h, audit_applyAll, appended, List.filterMap_flatMap]

theorem applyAll_of_isAudit {contents : Contents} {ws : List Write}
    (h : ∀ w ∈ ws, w.isAudit = true) :
    ((store pg).applyAll contents ws).rows = contents.rows ∧
      ((store pg).applyAll contents ws).approvals = contents.approvals := by
  induction ws generalizing contents with
  | nil => exact ⟨rfl, rfl⟩
  | cons w ws ih =>
    rw [List.forall_mem_cons] at h
    obtain ⟨hrows, happrovals⟩ := @ih (contents.apply w) h.2
    cases w with
    | insertAudit row => exact ⟨hrows, happrovals⟩
    | _ => exact absurd h.1 (by simp [Write.isAudit, Write.auditRow])

/-- The effect of the call is committed. -/
def Phase.effective : Phase → Bool
  | .done _ => true
  | .finished (.ok _) => true
  | _ => false

variable {call : Call} {φ φ' : Phase} {κ : Contents} {k : Cmd (store pg)} {r : Option k.Reply}
  {ws : List Write}

theorem Phase.effective_fail (φ : Phase) : φ.fail.effective = φ.effective := by
  cases φ <;> rfl

theorem Moves.effective (h : Moves pg host sha256 call φ κ k r ws φ') (hφ : φ.effective = true) :
    φ'.effective = true ∧ ws = [] := by
  cases h with
  | failed => exact ⟨by rwa [Phase.effective_fail], rfl⟩
  | unrolled | quiet | clock | log => exact ⟨hφ, rfl⟩
  | returned hanswer =>
    cases hanswer with
    | done => exact ⟨rfl, rfl⟩
    | _ => exact absurd hφ (by simp [Phase.effective])
  | _ => exact absurd hφ (by simp [Phase.effective])

theorem Moves.finished {answer : Except Thrown Response}
    (h : Moves pg host sha256 call (.finished answer) κ k r ws φ') : φ' = .finished answer := by
  cases h with
  | returned hanswer => cases hanswer
  | _ => rfl

theorem Moves.audit (h : Moves pg host sha256 call φ κ k r ws φ') :
    ws.filterMap Write.auditRow = [] ∨
      ∃ input row, ws.filterMap Write.auditRow = [row] ∧ Appends pg sha256 κ.audit input row := by
  cases h with
  | granted _ _ happends | denied _ _ happends | reported _ happends
  | rejected _ _ _ happends => exact .inr ⟨_, _, rfl, happends⟩
  | effect _ _ _ _ heffect =>
    cases heffect with
    | plain _ happends | final _ _ _ _ happends | pending _ _ _ _ happends =>
      exact .inr ⟨_, _, rfl, happends⟩
  | _ => exact .inl rfl

theorem Moves.of_returned {answer : Except Thrown Response} {r : Option Unit}
    (h : Moves pg host sha256 call φ κ (.ext (.returned answer)) r ws φ') (hr : r.isSome = true) :
    φ' = .finished answer := by
  cases h with
  | failed => exact absurd hr (by simp)
  | quiet _ hk => exact absurd hk (by simp [Cmd.quiet])
  | returned => rfl

theorem Moves.finishes {answer : Except Thrown Response}
    (h : Moves pg host sha256 call φ κ k r ws φ') (hφ' : φ' = .finished answer) :
    φ = .finished answer ∨ MayReturn host call φ answer := by
  cases h with
  | failed =>
    left
    cases φ with
    | finished answer' => exact hφ'
    | _ => exact absurd hφ' (by simp [Phase.fail])
  | unrolled | quiet | clock | log =>
    left
    exact hφ'
  | returned hanswer =>
    right
    rwa [← Phase.finished.inj hφ']
  | _ => exact absurd hφ' (by simp)

variable [DecidableEq Client] {calls : Client → Call} {init contents : Contents}
  {history : History pg Client} {phases : Client → Phase}

theorem sequence_of_trace
    (h : (protocol pg host sha256 calls).Trace (fun _ => .ready) init history phases contents)
    (hinit : Sequence init.audit) : Sequence contents.audit := by
  induction h with
  | nil => exact hinit
  | snoc _ hstep ih =>
    rw [audit_applyAll]
    rcases Moves.audit hstep with hnone | ⟨input, row, hrow, now, happend⟩
    · rw [hnone, List.append_nil]
      exact ih
    · rw [hrow]
      obtain ⟨row', heq, hof, hfresh⟩ := appendInTransaction_eq_some happend
      obtain rfl : row = row' := List.head_eq_of_cons_eq (List.append_cancel_left heq)
      exact ih.append hof hfresh

theorem phase_of_returned
    (h : (protocol pg host sha256 calls).Trace (fun _ => .ready) init history phases contents)
    {c : Client} {answer : Except Thrown Response} (hreturned : Returned history c answer) :
    phases c = .finished answer := by
  refine h.phase_invariant (motive := fun c φ history => Returned history c answer →
    φ = .finished answer) ?_ ?_ ?_ c hreturned
  · intro c hnil
    exact absurd hnil List.not_mem_nil
  · intro history phases contents φ e _ hstep ih hreturned
    rcases List.mem_append.mp hreturned with hmem | hmem
    · have hphase := ih hmem
      rw [hphase] at hstep
      exact Moves.finished hstep
    · cases e
      cases List.mem_singleton.mp hmem
      exact Moves.of_returned hstep rfl
  · intro history c φ e hne ih hreturned
    rcases List.mem_append.mp hreturned with hmem | hmem
    · exact ih hmem
    · cases List.mem_singleton.mp hmem
      exact absurd rfl hne

theorem mayReturn_of_returned
    (h : (protocol pg host sha256 calls).Trace (fun _ => .ready) init history phases contents)
    {c : Client} {answer : Except Thrown Response} (hreturned : Returned history c answer) :
    ∃ φ, MayReturn host (calls c) φ answer := by
  refine h.phase_invariant (motive := fun c φ _ => φ = .finished answer →
    ∃ φ', MayReturn host (calls c) φ' answer) ?_ ?_ ?_ c (phase_of_returned h hreturned)
  · intro c hready
    exact absurd hready (by simp)
  · intro history phases contents φ e _ hstep ih hφ
    rcases Moves.finishes hstep hφ with hbefore | hmay
    · exact ih hbefore
    · exact ⟨_, hmay⟩
  · intro history c φ e _ ih
    exact ih

theorem step_of_committed
    (h : (protocol pg host sha256 calls).Trace (fun _ => .ready) init history phases contents)
    {c : Client} {w : Write} (hcommitted : Committed history c w) :
    ∃ φ κ, ∃ (k : Cmd (store pg)) (r : Option k.Reply) (ws : List Write), ∃ φ',
      Moves pg host sha256 (calls c) φ κ k r ws φ' ∧ w ∈ ws := by
  obtain ⟨e, he, rfl, hw⟩ := hcommitted
  obtain ⟨p, s, hhistory⟩ := List.append_of_mem he
  rw [hhistory] at h
  obtain ⟨phases', contents', φ, -, hstep, -⟩ := h.split
  exact ⟨_, contents', e.cmd, e.reply, e.writes, φ, hstep, hw⟩

theorem moves_of_step {schedule : List (Client × Choice)} {V V' : World (store pg) Client Thrown Unit}
    (hrun : World.run schedule (server pg host sha256 calls init) = some V) {c : Client}
    {choice : Choice} (hstep : V.step c choice = some V') :
    ∃ phases, (protocol pg host sha256 calls).Trace (fun _ => .ready) init V.history phases
        V.contents ∧
      ∃ (k : Cmd (store pg)) (r : Option k.Reply) (ws : List Write), ∃ φ,
        V'.history = V.history ++ [⟨c, k, r, ws⟩] ∧
          V'.contents = (store pg).applyAll V.contents ws ∧
          Moves pg host sha256 (calls c) (phases c) V.contents k r ws φ := by
  obtain ⟨_, htrace⟩ := trace_of_run (World.run_concat hrun hstep)
  have hsettled : ∃ (k : Cmd (store pg)) (r : Option k.Reply) (ws : List Write),
      V'.history = V.history ++ [⟨c, k, r, ws⟩] ∧
        V'.contents = (store pg).applyAll V.contents ws := by
    obtain ⟨k, next, -, ⟨-, rfl⟩ | ⟨eff, -, -, rfl⟩⟩ := World.step_cases hstep
    · exact ⟨k, none, [], rfl, rfl⟩
    · exact ⟨k, some eff.reply, eff.writes, rfl, rfl⟩
  obtain ⟨k, r, ws, hhistory, hcontents⟩ := hsettled
  rw [hhistory] at htrace
  obtain ⟨phases', contents', φ, hbefore, hmoves, -⟩ := htrace.split
  obtain ⟨_, htrace'⟩ := trace_of_run hrun
  have hsame : contents' = V.contents := by rw [hbefore.contents_eq, htrace'.contents_eq]
  subst hsame
  exact ⟨phases', hbefore, k, r, ws, φ, hhistory, hcontents, hmoves⟩

end OpenRupiv.Runtime
