import OpenRupiv.Runtime.History

/-!
# Transitions that fail, and transitions that succeed

A call that throws leaves the tables as they are, and in the audit log nothing but its policy
decisions and the denial of a duplicate approver.  A call that has an effect recorded the decisions
that allow it before, in the chain too.
-/

namespace OpenRupiv.Runtime

open Js Lib Spec Audit

variable {pg : Postgres} {host : Host} {sha256 : String → String} {Client : Type}

namespace ExecuteTransitionInput

variable (i : ExecuteTransitionInput)

/-- The record is about this transition, by this user. -/
structure Concerns (row : AuditRow) : Prop where
  actor : row.actor = ofString i.user.sub
  subject : row.subject = some (ofString i.subject)
  workflow : row.attribute "workflow" = some (ofString i.workflow.name)
  transition : row.attribute "transition" = some (ofString i.transition.name)

/-- A record that a call may leave behind when it throws. -/
def Leaves (row : AuditRow) : Prop :=
  i.Concerns row ∧ (row.event = ofString "policy.decision" ∨
    row.event = ofString "workflow.duplicate_approver" ∧ row.decision = some .deny)

variable {i} {row : AuditRow}

private theorem concerns_of_shows {event : String} {decision : Decision} {o : Object}
    (h : Shows row (i.record event decision o))
    (hworkflow : o.members.lookup (ofString "workflow") = some (text i.workflow.name))
    (htransition : o.members.lookup (ofString "transition") = some (text i.transition.name)) :
    i.Concerns row where
  actor := h.actor _ rfl
  subject := h.subject _ rfl
  workflow := h.attributes o _ _ rfl (by decide) (by decide) hworkflow
  transition := h.attributes o _ _ rfl (by decide) (by decide) htransition

private theorem lookup_entry (key key' : String) (value : Json) (members : List (Text × Json)) :
    (entry key' value :: members).lookup (ofString key) =
      if key = key' then some value else members.lookup (ofString key) := by
  by_cases h : key = key'
  · simp [entry, h]
  · have hne : (ofString key == ofString key') = false := by simp [h]
    simp [entry, List.lookup_cons, hne, h]

theorem concerns_decisionRecord {q : Question} {d : PolicyDecision}
    (h : Shows row (i.decisionRecord q d)) : i.Concerns row := by
  apply concerns_of_shows h <;> simp [lookup_entry]

theorem concerns_duplicateRecord (h : Shows row i.duplicateRecord) : i.Concerns row := by
  apply concerns_of_shows h <;> simp [lookup_entry]

theorem concerns_transitionRecord {approvals : Option (Nat × Nat)}
    (h : Shows row (i.transitionRecord approvals)) : i.Concerns row := by
  cases approvals <;> apply concerns_of_shows h <;> simp [lookup_entry]

theorem concerns_approvalRecord {approvals required : Nat}
    (h : Shows row (i.approvalRecord approvals required)) : i.Concerns row := by
  apply concerns_of_shows h <;> simp [lookup_entry]

theorem event_transitionRecord {approvals : Option (Nat × Nat)}
    (h : Shows row (i.transitionRecord approvals)) : row.event = ofString "workflow.transition" := by
  cases approvals <;> exact h.event _ rfl

theorem states_transitionRecord {approvals : Option (Nat × Nat)}
    (h : Shows row (i.transitionRecord approvals)) :
    row.attribute "from" = some (ofString i.transition.from) ∧
      row.attribute "to" = some (ofString i.transition.to) := by
  cases approvals <;> constructor <;> apply h.attributes _ _ _ rfl (by decide) (by decide) <;>
    simp [lookup_entry, text]

theorem action_decisionRecord {q : Question} {d : PolicyDecision}
    (h : Shows row (i.decisionRecord q d)) : row.attribute "action" = some (ofString (i.action q)) := by
  apply h.attributes _ _ _ rfl (by decide) (by decide)
  simp [lookup_entry, text]

theorem leaves_decisionRecord {q : Question} {d : PolicyDecision}
    (h : Shows row (i.decisionRecord q d)) : i.Leaves row :=
  ⟨concerns_decisionRecord h, .inl (h.event _ rfl)⟩

theorem leaves_duplicateRecord (h : Shows row i.duplicateRecord) : i.Leaves row :=
  ⟨concerns_duplicateRecord h, .inr ⟨h.event _ rfl, h.decision⟩⟩

end ExecuteTransitionInput

theorem Appends.shows {rows : List AuditRow} {input : AuditRecordInput} {row : AuditRow}
    (h : Appends pg sha256 rows input row) : Shows row input := by
  obtain ⟨now, hnow⟩ := h
  exact shows_of_append hnow

section Phases

variable {call : Call} {φ φ' : Phase} {κ : Contents} {k : Cmd (store pg)} {r : Option k.Reply}
  {ws : List Write}

private theorem Moves.leaves (h : Moves pg host sha256 call φ κ k r ws φ')
    (hφ : φ'.effective = false) {w : Write} (hw : w ∈ ws) :
    ∃ row, w = .insertAudit row ∧ ∀ i, call = .transition i → i.Leaves row := by
  have hsingle : ∀ {row : AuditRow}, w ∈ [Write.insertAudit row] → w = .insertAudit row :=
    List.mem_singleton.mp
  cases h with
  | failed | unrolled | quiet | clock | log | invoked | returned | looked | asked | locked
  | duplicate | absent => exact absurd hw List.not_mem_nil
  | effect | created | updated => exact absurd hφ (by simp [Phase.effective])
  | granted hcall _ happends | denied hcall _ happends =>
    refine ⟨_, hsingle hw, ?_⟩
    intro i hi
    cases hcall.symm.trans hi
    exact ExecuteTransitionInput.leaves_decisionRecord happends.shows
  | reported hcall happends =>
    refine ⟨_, hsingle hw, ?_⟩
    intro i hi
    cases hcall.symm.trans hi
    exact ExecuteTransitionInput.leaves_duplicateRecord happends.shows
  | rejected hrequest =>
    refine ⟨_, hsingle hw, ?_⟩
    intro i hi
    rw [hi] at hrequest
    exact absurd hrequest (by simp [Call.request])

variable [DecidableEq Client] {calls : Client → Call} {init contents : Contents}
  {history : History pg Client} {phases : Client → Phase}

theorem leaves_of_not_effective
    (h : (protocol pg host sha256 calls).Trace (fun _ => .ready) init history phases contents)
    {c : Client} (hc : (phases c).effective = false) {w : Write} (hw : Committed history c w) :
    ∃ row, w = .insertAudit row ∧ ∀ i, calls c = .transition i → i.Leaves row := by
  refine h.phase_invariant (motive := fun c φ history => φ.effective = false → ∀ w,
    Committed history c w → ∃ row, w = .insertAudit row ∧ ∀ i, calls c = .transition i →
      i.Leaves row) ?_ ?_ ?_ c hc w hw
  · intro c _ w hw
    obtain ⟨e, he, -⟩ := hw
    exact absurd he List.not_mem_nil
  · intro history phases contents φ e _ hstep ih hφ w hw
    have hbefore : (phases e.client).effective = false := by
      by_contra heffective
      rw [Bool.not_eq_false] at heffective
      have := (Moves.effective hstep heffective).1
      simp_all
    rcases committed_append.mp hw with hw | ⟨-, hw⟩
    · exact ih hbefore w hw
    · exact Moves.leaves hstep hφ hw
  · intro history c φ e hne ih hφ w hw
    rcases committed_append.mp hw with hw | ⟨hclient, -⟩
    · exact ih hφ w hw
    · exact absurd hclient hne

end Phases

section Calls

variable [DecidableEq Client] {calls : Client → Call} {init : Contents}
  {schedule : List (Client × Choice)} {W : World (store pg) Client Thrown Unit}

/-- A transition that throws committed nothing but its refusals; where no other call writes, the
tables are as they were. -/
theorem error_atomicity (hrun : World.run schedule (server pg host sha256 calls init) = some W)
    {c : Client} {i : ExecuteTransitionInput} {thrown : Thrown} (hcall : calls c = .transition i)
    (hthrown : Returned W.history c (.error thrown)) :
    (∀ w, Committed W.history c w → ∃ row, w = .insertAudit row ∧ i.Leaves row) ∧
      ((∀ e ∈ W.history, e.client ≠ c → e.writes = []) →
        W.contents.rows = init.rows ∧ W.contents.approvals = init.approvals ∧
          ∃ rows, W.contents.audit = init.audit ++ rows ∧ ∀ row ∈ rows, i.Leaves row) := by
  obtain ⟨phases, htrace⟩ := trace_of_run hrun
  have heffective : (phases c).effective = false := by
    rw [phase_of_returned htrace hthrown]
    rfl
  have hown : ∀ w, Committed W.history c w → ∃ row, w = .insertAudit row ∧ i.Leaves row := by
    intro w hw
    obtain ⟨row, rfl, hrow⟩ := leaves_of_not_effective htrace heffective hw
    exact ⟨row, rfl, hrow i hcall⟩
  refine ⟨hown, ?_⟩
  intro hidle
  have hall : ∀ w ∈ W.history.flatMap (·.writes), ∃ row, w = .insertAudit row ∧ i.Leaves row := by
    intro w hw
    obtain ⟨e, he, hwe⟩ := List.mem_flatMap.mp hw
    by_cases hclient : e.client = c
    · exact hown w ⟨e, he, hclient, hwe⟩
    · rw [hidle e he hclient] at hwe
      exact absurd hwe List.not_mem_nil
  have htables := @applyAll_of_isAudit pg init _ fun w hw => by
    obtain ⟨row, rfl, -⟩ := hall w hw
    rfl
  rw [← htrace.contents_eq] at htables
  refine ⟨htables.1, htables.2, _, audit_eq_appended htrace.contents_eq, ?_⟩
  intro row hrow
  obtain ⟨e, he, hwrite⟩ := List.mem_flatMap.mp hrow
  obtain ⟨w, hw, hwrow⟩ := List.mem_filterMap.mp hwrite
  obtain ⟨row', rfl, hleaves⟩ := hall w (List.mem_flatMap.mpr ⟨e, he, hw⟩)
  rwa [← Option.some.inj hwrow]

def refused : PolicyDecision := { allow := false, reason := [], policyId := [] }

/-- The call is denied, and its denial is on the log. -/
theorem error_atomicity_denied :
    ∃ W, alone oneVendor (.transition (fire riskReview close "kim"))
        (List.replicate 13 { untroubled with decision := some refused }) = some W ∧
      W.contents.audit.map (·.decision) = [some .deny] ∧
      (∀ w, Committed W.history () w → ∃ row, w = .insertAudit row ∧
        (fire riskReview close "kim").Leaves row) ∧
      ((∀ e ∈ W.history, e.client ≠ () → e.writes = []) →
        W.contents.rows = oneVendor.rows ∧ W.contents.approvals = oneVendor.approvals ∧
          ∃ rows, W.contents.audit = oneVendor.audit ++ rows ∧
            ∀ row ∈ rows, (fire riskReview close "kim").Leaves row) := by
  have hdenied : (alone oneVendor (.transition (fire riskReview close "kim"))
      (List.replicate 13 { untroubled with decision := some refused })).map (fun W =>
        (W.contents.audit.map (·.decision), answers W.history)) =
      some ([some .deny], [((), .error (.runtime
        ((fire riskReview close "kim").forbiddenRole .fire refused)))]) := by decide +kernel
  obtain ⟨W, hrun, hW⟩ := Option.map_eq_some_iff.mp hdenied
  obtain ⟨hdecision, hanswers⟩ := Prod.mk.inj hW
  have hthrown := returned_of_mem_answers (hanswers ▸ List.mem_singleton_self _)
  exact ⟨W, hrun, hdecision, error_atomicity hrun rfl hthrown⟩

end Calls

namespace ExecuteTransitionInput

variable (i : ExecuteTransitionInput)

/-- A record of the answer allow to a question of this call. -/
structure Allows (q : Question) (row : AuditRow) : Prop where
  event : row.event = ofString "policy.decision"
  decision : row.decision = some .allow
  concerns : i.Concerns row
  action : row.attribute "action" = some (ofString (i.action q))

end ExecuteTransitionInput

/-- The events of approvals and state changes. -/
def effectEvents : List Text := [ofString "workflow.transition", ofString "workflow.approval_recorded"]

/-- An answer of the policy engine was given to `c`, and nothing was committed for `c` since. -/
def AwaitsRecord (history : History pg Client) (c : Client) : Prop :=
  ∃ p input decision s, history = p ++ ⟨c, .ext (.decide input), some decision, []⟩ :: s ∧
    ∀ e ∈ s, e.client = c → e.writes = []

/-- A command of `c` failed before the decision was recorded; a rollback only follows a failure. -/
def DecisionAppendFails (history : History pg Client) (c : Client) : Prop :=
  ∃ p e s, history = p ++ e :: s ∧ e.client = c ∧ e.reply.isNone = true ∧ e.cmd ≠ .rollback ∧
    AwaitsRecord p c

/-- The questions that were answered with allow when the call is in this phase. -/
def Phase.answers (i : ExecuteTransitionInput) : Phase → List Question
  | .looked _ granted | .answered _ granted _ _ | .denied _ granted _ _ => granted
  | .locked _ => i.questions
  | _ => []

/-- A call that was never allowed an effect. -/
def Phase.sunk : Phase → Bool
  | .faulted | .finished (.error _) => true
  | _ => false

section Phases

variable {call : Call} {φ φ' : Phase} {κ : Contents} {k : Cmd (store pg)} {r : Option k.Reply}
  {ws : List Write}

private theorem Moves.sunk (h : Moves pg host sha256 call φ κ k r ws φ') (hφ : φ.sunk = true) :
    φ'.sunk = true := by
  cases h with
  | failed => cases φ <;> simp_all [Phase.fail, Phase.sunk]
  | unrolled | quiet | clock | log => exact hφ
  | returned hanswer => cases hanswer <;> simp_all [Phase.sunk]
  | _ => exact absurd hφ (by simp [Phase.sunk])

private def Phase.awaits : Phase → Bool
  | .answered _ _ _ _ => true
  | φ => φ.sunk

private theorem Moves.awaits (h : Moves pg host sha256 call φ κ k r ws φ') (hφ : φ.awaits = true)
    (hws : ws = []) : φ'.awaits = true := by
  cases h with
  | failed => cases φ <;> simp_all [Phase.fail, Phase.awaits, Phase.sunk]
  | unrolled | quiet | clock | log => exact hφ
  | returned hanswer => cases hanswer <;> simp_all [Phase.awaits, Phase.sunk]
  | _ => simp_all [Phase.awaits, Phase.sunk]

private theorem Moves.sunk_of_failure (h : Moves pg host sha256 call φ κ k r ws φ')
    (hφ : φ.awaits = true) (hr : r.isNone = true) (hk : k ≠ .rollback) : φ'.sunk = true := by
  cases h with
  | failed => cases φ <;> simp_all [Phase.fail, Phase.awaits, Phase.sunk]
  | unrolled => exact absurd rfl hk
  | _ => exact absurd hr (by simp)

private theorem Moves.of_decide {input : PolicyInput} {decision : PolicyDecision}
    (h : Moves pg host sha256 call φ κ (.ext (.decide input)) (some decision) ws φ') :
    φ'.awaits = true := by
  cases h with
  | quiet _ hk => exact absurd hk (by simp [Cmd.quiet])
  | asked => rfl

private theorem Moves.of_effect (h : Moves pg host sha256 call φ κ k r ws φ') {row : AuditRow}
    (hrow : .insertAudit row ∈ ws) (hevent : row.event ∈ effectEvents) :
    ∃ i found, call = .transition i ∧ φ = .locked found ∧ i.Concerns row := by
  have hsingle : ∀ {row' : AuditRow}, Write.insertAudit row ∈ [Write.insertAudit row'] →
      row = row' := by
    intro row' hmem
    exact Write.insertAudit.inj (List.mem_singleton.mp hmem)
  have hother : ∀ {event : String}, row.event = ofString event →
      event ∉ ["workflow.transition", "workflow.approval_recorded"] → False := by
    intro event heq hne
    rw [heq] at hevent
    simp only [effectEvents, List.mem_cons, ofString_inj, List.not_mem_nil, or_false] at hevent
    simp_all
  cases h with
  | failed | unrolled | quiet | clock | log | invoked | returned | looked | asked | locked
  | duplicate | absent => exact absurd hrow List.not_mem_nil
  | created | updated => exact absurd hrow (by simp)
  | granted _ _ happends | denied _ _ happends | reported _ happends
  | rejected _ _ _ happends =>
    cases hsingle hrow
    exact (hother (happends.shows.event _ rfl) (by decide)).elim
  | effect hcall _ _ _ heffect =>
    refine ⟨_, _, hcall, rfl, ?_⟩
    cases heffect with
    | @plain now audit _ happends =>
      have hmem : row = audit := by simpa [ExecuteTransitionInput.stateWrites] using hrow
      subst hmem
      exact ExecuteTransitionInput.concerns_transitionRecord happends.shows
    | @final rule approvals now audit _ _ _ _ happends =>
      have hmem : row = audit := by simpa [ExecuteTransitionInput.stateWrites] using hrow
      subst hmem
      exact ExecuteTransitionInput.concerns_transitionRecord happends.shows
    | @pending rule approvals audit _ _ _ _ happends =>
      have hmem : row = audit := by simpa using hrow
      subst hmem
      exact ExecuteTransitionInput.concerns_approvalRecord happends.shows

private theorem Moves.answers (h : Moves pg host sha256 call φ κ k r ws φ')
    {i : ExecuteTransitionInput} (hi : call = .transition i) {q : Question}
    (hq : q ∈ φ'.answers i) :
    q ∈ φ.answers i ∨ ∃ row, .insertAudit row ∈ ws ∧ i.Allows q row := by
  cases h with
  | failed => cases φ <;> exact absurd hq (by simp [Phase.fail, Phase.answers])
  | unrolled | quiet | clock | log | asked | denied => exact .inl hq
  | granted hcall hallow happends =>
    cases hcall.symm.trans hi
    rcases List.mem_append.mp hq with hq | hq
    · exact .inl hq
    · cases List.mem_singleton.mp hq
      refine .inr ⟨_, List.mem_singleton_self _, happends.shows.event _ rfl, ?_,
        ExecuteTransitionInput.concerns_decisionRecord happends.shows,
        ExecuteTransitionInput.action_decisionRecord happends.shows⟩
      rw [happends.shows.decision]
      simp [ExecuteTransitionInput.decisionRecord, ExecuteTransitionInput.record, hallow]
  | locked hcall =>
    cases hcall.symm.trans hi
    exact .inl hq
  | _ => exact absurd hq (by simp [Phase.answers])

variable [DecidableEq Client] {calls : Client → Call} {init contents : Contents}
  {history : History pg Client} {phases : Client → Phase}

theorem allowed_of_trace
    (h : (protocol pg host sha256 calls).Trace (fun _ => .ready) init history phases contents)
    {c : Client} {i : ExecuteTransitionInput} (hcall : calls c = .transition i) {q : Question}
    (hq : q ∈ (phases c).answers i) :
    ∃ row, Committed history c (.insertAudit row) ∧ i.Allows q row := by
  refine h.phase_invariant (motive := fun c φ history => ∀ i, calls c = .transition i →
    ∀ q ∈ φ.answers i, ∃ row, Committed history c (.insertAudit row) ∧ i.Allows q row)
    ?_ ?_ ?_ c i hcall q hq
  · intro c i _ q hq
    exact absurd hq List.not_mem_nil
  · intro history phases contents φ e _ hstep ih i hi q hq
    rcases Moves.answers hstep hi hq with hq | ⟨row, hrow, hallows⟩
    · obtain ⟨row, hcommitted, hallows⟩ := ih i hi q hq
      exact ⟨row, committed_append.mpr (.inl hcommitted), hallows⟩
    · exact ⟨row, committed_append.mpr (.inr ⟨rfl, hrow⟩), hallows⟩
  · intro history c φ e _ ih i hi q hq
    obtain ⟨row, hcommitted, hallows⟩ := ih i hi q hq
    exact ⟨row, committed_append.mpr (.inl hcommitted), hallows⟩

private theorem awaits_of_trace
    (h : (protocol pg host sha256 calls).Trace (fun _ => .ready) init history phases contents)
    {c : Client} (hawaits : AwaitsRecord history c) : (phases c).awaits = true := by
  refine h.phase_invariant (motive := fun c φ history => AwaitsRecord history c →
    φ.awaits = true) ?_ ?_ ?_ c hawaits
  · rintro c ⟨p, input, decision, s, hhistory, -⟩
    exact absurd hhistory (by simp)
  · rintro history phases contents φ e _ hstep ih ⟨p, input, decision, s, hhistory, hs⟩
    rcases concat_eq_split hhistory with ⟨rfl, rfl, he⟩ | ⟨s', rfl, rfl⟩
    · cases e
      cases he
      exact Moves.of_decide hstep
    · apply Moves.awaits hstep (ih ⟨p, input, decision, s', rfl, ?_⟩) (hs e (by simp) rfl)
      intro d hd
      exact hs d (List.mem_append_left _ hd)
  · rintro history c φ e hne ih ⟨p, input, decision, s, hhistory, hs⟩
    rcases concat_eq_split hhistory with ⟨rfl, rfl, he⟩ | ⟨s', rfl, rfl⟩
    · cases he
      exact absurd rfl hne
    · apply ih ⟨p, input, decision, s', rfl, ?_⟩
      intro d hd
      exact hs d (List.mem_append_left _ hd)

private theorem sunk_of_decisionAppendFails
    (h : (protocol pg host sha256 calls).Trace (fun _ => .ready) init history phases contents)
    {c : Client} (hfails : DecisionAppendFails history c) : (phases c).sunk = true := by
  refine h.phase_invariant (motive := fun c φ history => DecisionAppendFails history c →
    φ.sunk = true) ?_ ?_ ?_ c hfails
  · rintro c ⟨p, e, s, hhistory, -⟩
    exact absurd hhistory (by simp)
  · rintro history phases contents φ e htrace hstep ih ⟨p, d, s, hhistory, hclient, hr, hk, hawaits⟩
    rcases concat_eq_split hhistory with ⟨rfl, rfl, rfl⟩ | ⟨s', rfl, rfl⟩
    · exact Moves.sunk_of_failure hstep (awaits_of_trace htrace hawaits) hr hk
    · exact Moves.sunk hstep (ih ⟨p, d, s', rfl, hclient, hr, hk, hawaits⟩)
  · rintro history c φ e hne ih ⟨p, d, s, hhistory, hclient, hr, hk, hawaits⟩
    rcases concat_eq_split hhistory with ⟨rfl, rfl, rfl⟩ | ⟨s', rfl, rfl⟩
    · exact absurd hclient hne
    · exact ih ⟨p, d, s', rfl, hclient, hr, hk, hawaits⟩

end Phases

section Calls

variable [DecidableEq Client] {calls : Client → Call} {init : Contents}
  {schedule : List (Client × Choice)} {W : World (store pg) Client Thrown Unit}

/-- Every record of an effect comes after the records of the decisions that allow it, by the same
call; a call whose decision could not be recorded has no effect. -/
theorem cause_before_effect (hinit : Sequence init.audit)
    (hrun : World.run schedule (server pg host sha256 calls init) = some W) :
    (∀ row ∈ W.contents.audit, row ∉ init.audit → row.event ∈ effectEvents →
      ∃ c i, calls c = .transition i ∧ Committed W.history c (.insertAudit row) ∧ i.Concerns row ∧
        ∀ q ∈ i.questions, ∃ row' ∈ W.contents.audit, row'.seq < row.seq ∧
          Committed W.history c (.insertAudit row') ∧ i.Allows q row') ∧
      ∀ c, DecisionAppendFails W.history c → ∀ w, Committed W.history c w → w.isAudit = true := by
  obtain ⟨phases, htrace⟩ := trace_of_run hrun
  have hsequence := sequence_of_trace htrace hinit
  constructor
  · intro row hrow hnew hevent
    rw [audit_eq_appended htrace.contents_eq, List.mem_append, or_iff_right hnew] at hrow
    obtain ⟨e, he, hwrite⟩ := List.mem_flatMap.mp hrow
    obtain ⟨w, hw, hwrow⟩ := List.mem_filterMap.mp hwrite
    obtain ⟨p, s, hhistory⟩ := List.append_of_mem he
    have hinsert : Write.insertAudit row ∈ e.writes := by
      cases w with
      | insertAudit row' => rwa [← Option.some.inj hwrow]
      | _ => exact absurd hwrow (by simp [Write.auditRow])
    rw [hhistory] at htrace
    obtain ⟨phases', contents', φ, hbefore, hstep, -⟩ := htrace.split
    obtain ⟨i, found, hcall, hphase, hconcerns⟩ := Moves.of_effect hstep hinsert hevent
    refine ⟨e.client, i, hcall, ⟨e, he, rfl, hinsert⟩, hconcerns, ?_⟩
    intro q hq
    obtain ⟨row', hcommitted, hallows⟩ := allowed_of_trace hbefore hcall (q := q) (by
      rw [hphase]
      exact hq)
    have hsubset : p ⊆ W.history := by
      rw [hhistory]
      exact List.subset_append_left _ _
    obtain ⟨e', he', -, hinsert'⟩ := id hcommitted
    have hrow' : row' ∈ init.audit ++ appended p :=
      List.mem_append_right _ (List.mem_flatMap.mpr
        ⟨e', he', List.mem_filterMap.mpr ⟨_, hinsert', rfl⟩⟩)
    have haudit : W.contents.audit = (init.audit ++ appended p) ++ appended (e :: s) := by
      rw [audit_eq_appended htrace.contents_eq]
      simp [appended]
    have hlast : row ∈ appended (e :: s) :=
      List.mem_flatMap.mpr ⟨e, List.mem_cons_self, List.mem_filterMap.mpr ⟨_, hinsert, rfl⟩⟩
    have hsorted := hsequence.pairwise_seq
    rw [haudit, List.pairwise_append] at hsorted
    refine ⟨row', ?_, hsorted.2.2 row' hrow' row hlast, hcommitted.mono hsubset, hallows⟩
    rw [haudit]
    exact List.mem_append_left _ hrow'
  · intro c hfails w hw
    have hsunk := sunk_of_decisionAppendFails htrace hfails
    have heffective : (phases c).effective = false := by
      cases hphase : phases c with
      | finished answer => cases answer <;> simp_all [Phase.sunk, Phase.effective]
      | _ => simp_all [Phase.sunk, Phase.effective]
    obtain ⟨row, rfl, -⟩ := leaves_of_not_effective htrace heffective hw
    rfl

theorem cause_before_effect_vendor :
    ∃ W, alone oneVendor (.transition (fire riskReview close "kim")) (List.replicate 20 untroubled) =
        some W ∧
      (∀ row ∈ W.contents.audit, row ∉ oneVendor.audit → row.event ∈ effectEvents →
        ∃ c i, Call.transition (fire riskReview close "kim") = .transition i ∧
          Committed W.history c (.insertAudit row) ∧ i.Concerns row ∧
          ∀ q ∈ i.questions, ∃ row' ∈ W.contents.audit, row'.seq < row.seq ∧
            Committed W.history c (.insertAudit row') ∧ i.Allows q row') ∧
      ∀ c, DecisionAppendFails W.history c → ∀ w, Committed W.history c w → w.isAudit = true := by
  have hsome : (alone oneVendor (.transition (fire riskReview close "kim"))
      (List.replicate 20 untroubled)).isSome = true := by decide +kernel
  obtain ⟨W, hrun⟩ := Option.isSome_iff_exists.mp hsome
  exact ⟨W, hrun, cause_before_effect Sequence.empty hrun⟩

end Calls

end OpenRupiv.Runtime
