import OpenRupiv.Runtime.Approvals

/-!
# Rounds of approvals

A transition with an approval rule moves a record when enough people have approved it.  Each of them
was allowed to fire it and to approve it, and nothing has moved the record between an approval that
counts and the move.
-/

namespace OpenRupiv.Runtime

open Js Lib Spec Audit

variable {pg : Postgres} {host : Host} {sha256 : String → String} {spec : AppSpec} {Client : Type}

/-- The entry creates the record, or a transition moves it. -/
def Enters (calls : Client → Call) (table : String) (id : Uuid) (e : Label (store pg) Client) :
    Prop :=
  (∃ row, Write.insertRow table id row ∈ e.writes) ∨
    ∃ i values, calls e.client = .transition i ∧ Write.setColumns table id values ∈ e.writes

/-- A successful approval, which the policy engine allowed twice. -/
structure Attempt (calls : Client → Call) (before : History pg Client) (e : Label (store pg) Client)
    (i : ExecuteTransitionInput) (id : Uuid) : Prop where
  call : calls e.client = .transition i
  record : pg.uuid i.recordId = some id
  approved : Write.insertApproval (i.approval id) ∈ e.writes
  allowed : ∀ q, ∃ row, Committed before e.client (.insertAudit row) ∧ i.Allows q row

def GivenThisRound (calls : Client → Call) (history : History pg Client) (a : Approval) : Prop :=
  ∃ p e m i, history = p ++ e :: m ∧ Attempt calls p e i a.recordId ∧ i.approval a.recordId = a ∧
    ∀ d ∈ m, ¬Enters calls a.entityTable a.recordId d

section Step

variable {i : ExecuteTransitionInput} {call : Call} {φ φ' : Phase} {κ : Contents}
  {k : Cmd (store pg)} {r : Option k.Reply} {ws : List Write} {table : String} {id uuid : Uuid}

theorem mem_questions {rule : ApprovalRule} (h : i.transition.approval = some rule) (q : Question) :
    q ∈ i.questions := by
  cases q <;> simp [ExecuteTransitionInput.questions, h]

/-- A move has the approvals that it needs, the one that it writes itself included. -/
theorem ExecuteTransitionInput.EffectOf.suffices {outcome : TransitionOutcome}
    (h : i.EffectOf pg sha256 id κ ws outcome) {values : List (String × SqlValue)}
    (hw : Write.setColumns table uuid values ∈ ws) :
    i.Suffices id (κ.view i.table id).approvals ∧
      ∀ rule, i.transition.approval = some rule → Write.insertApproval (i.approval id) ∈ ws := by
  cases h with
  | plain hnone =>
    refine ⟨by simp [ExecuteTransitionInput.Suffices, hnone], ?_⟩
    intro rule hrule
    rw [hnone] at hrule
    exact absurd hrule (by simp)
  | @final rule approvals now audit hrule hfresh hlength hle =>
    constructor
    · simp only [ExecuteTransitionInput.Suffices, hrule]
      refine ⟨fun hmem => hfresh (List.mem_filter.mp hmem).1, ?_⟩
      rw [Contents.approvers_eq, view_insertApproval (approval_about i id)] at hlength
      rw [hlength]
      exact hle
    · intro _ _
      exact List.mem_cons_self
  | pending => exact absurd hw (by simp)

theorem Moves.spends (h : Moves pg host sha256 (.transition i) φ κ k r ws φ')
    {values : List (String × SqlValue)} (hw : Write.setColumns table id values ∈ ws) :
    i.table = table ∧ pg.uuid i.recordId = some id ∧
      i.Suffices id (κ.view table id).approvals ∧
      (∀ rule, i.transition.approval = some rule → Write.insertApproval (i.approval id) ∈ ws) ∧
      (((store pg).applyAll κ ws).view table id).approvals = [] := by
  cases h with
  | failed | unrolled | quiet | clock | log | invoked | returned | looked | asked | locked
  | duplicate | absent => exact absurd hw List.not_mem_nil
  | granted | denied | reported | rejected => exact absurd (List.mem_singleton.mp hw) (by simp)
  | created hcall | updated hcall => exact absurd hcall (by simp)
  | effect hcall huuid hrow hcheck heffect =>
    cases hcall
    obtain ⟨rfl, rfl⟩ := heffect.touches hw ⟨rfl, rfl⟩
    obtain ⟨hsuffices, hlast⟩ := heffect.suffices hw
    refine ⟨rfl, huuid, hsuffices, hlast, ?_⟩
    rcases heffect.view hrow with ⟨-, now, hview⟩ | ⟨rule, hrule, -, hlt, -⟩
    · rw [hview]
    · simp only [ExecuteTransitionInput.Suffices, hrule] at hsuffices
      exact absurd hsuffices.2 (by omega)

private theorem mem_approvals_applyAll {a : Approval}
    (h : a ∈ ((store pg).applyAll κ ws).approvals) :
    a ∈ κ.approvals ∨ Write.insertApproval a ∈ ws := by
  induction ws generalizing κ with
  | nil => exact .inl h
  | cons w ws ih =>
    rcases ih h with hmem | hmem
    · cases w with
      | insertApproval b =>
        rcases List.mem_append.mp hmem with hmem | hmem
        · exact .inl hmem
        · rw [List.mem_singleton.mp hmem]
          exact .inr List.mem_cons_self
      | deleteApprovals seen => exact .inl (List.mem_filter.mp hmem).1
      | _ => exact .inl hmem
    · exact .inr (List.mem_cons_of_mem _ hmem)

theorem Moves.approves {call : Call} (h : Moves pg host sha256 call φ κ k r ws φ') {a : Approval}
    (hw : Write.insertApproval a ∈ ws) :
    ∃ i, call = .transition i ∧ pg.uuid i.recordId = some a.recordId ∧ i.approval a.recordId = a ∧
      ∃ rule, i.transition.approval = some rule := by
  cases h with
  | failed | unrolled | quiet | clock | log | invoked | returned | looked | asked | locked
  | duplicate | absent => exact absurd hw List.not_mem_nil
  | granted | denied | reported | rejected | created | updated =>
    exact absurd (List.mem_singleton.mp hw) (by simp)
  | @effect i κ row uuid ws outcome hcall huuid hrow hcheck heffect =>
    cases heffect with
    | plain => exact absurd hw (by simp [ExecuteTransitionInput.stateWrites])
    | final hrule =>
      have heq : a = i.approval uuid := by
        simpa [ExecuteTransitionInput.stateWrites] using hw
      rw [heq]
      exact ⟨i, hcall, huuid, rfl, _, hrule⟩
    | pending hrule =>
      have heq : a = i.approval uuid := by simpa using hw
      rw [heq]
      exact ⟨i, hcall, huuid, rfl, _, hrule⟩

end Step

section Runs

variable [DecidableEq Client] {calls : Client → Call} {init contents : Contents}
  {history : History pg Client} {phases : Client → Phase}

theorem attempt_of_trace
    (h : (protocol pg host sha256 calls).Trace (fun _ => .ready) init history phases contents)
    {e : Label (store pg) Client} {φ : Phase}
    (hmoves : Moves pg host sha256 (calls e.client) (phases e.client) contents e.cmd e.reply e.writes
      φ) {a : Approval} (hw : Write.insertApproval a ∈ e.writes) :
    ∃ i, Attempt calls history e i a.recordId ∧ i.approval a.recordId = a := by
  obtain ⟨i, hcall, huuid, heq, rule, hrule⟩ := hmoves.approves hw
  rw [hcall] at hmoves
  obtain ⟨-, -, hthrough⟩ := letsThrough_of_effect h hcall hmoves hw rfl
  refine ⟨i, ⟨hcall, huuid, by rwa [heq], ?_⟩, heq⟩
  intro q
  exact hthrough.allowed q (mem_questions hrule q)

theorem row_of_approvals (hinit : init.approvals = [])
    (h : (protocol pg host sha256 calls).Trace (fun _ => .ready) init history phases contents)
    (table : String) (id : Uuid) (hsome : (contents.view table id).approvals ≠ []) :
    contents.rows table id ≠ none := by
  induction h with
  | nil => exact absurd (by rw [Contents.view, hinit, List.filter_nil]) hsome
  | @snoc history phases contents φ e _ hstep ih =>
    have hmoves : Moves pg host sha256 (calls e.client) (phases e.client) contents e.cmd e.reply
      e.writes φ := hstep
    have hchange := hmoves.changes table id
    show (((store pg).applyAll contents e.writes).view table id).row ≠ none
    have hbefore : (contents.view table id).approvals ≠ [] → (contents.view table id).row ≠ none := ih
    generalize contents.view table id = view at hchange hbefore
    generalize ((store pg).applyAll contents e.writes).view table id = view' at hchange hsome ⊢
    cases hchange with
    | kept => exact hbefore hsome
    | _ => simp

theorem givenThisRound_of_trace (hinit : init.approvals = [])
    (h : (protocol pg host sha256 calls).Trace (fun _ => .ready) init history phases contents) :
    ∀ a ∈ contents.approvals, GivenThisRound calls history a := by
  induction h with
  | nil =>
    intro a ha
    rw [hinit] at ha
    exact absurd ha List.not_mem_nil
  | @snoc history phases contents φ e hbefore hstep ih =>
    have hmoves : Moves pg host sha256 (calls e.client) (phases e.client) contents e.cmd e.reply
      e.writes φ := hstep
    intro a ha
    by_cases hold : a ∈ contents.approvals
    · obtain ⟨p, d, m, i, hhistory, hattempt, heq, hround⟩ := ih a hold
      refine ⟨p, d, m ++ [e], i, by rw [hhistory]; simp, hattempt, heq, ?_⟩
      intro d' hd'
      rcases List.mem_append.mp hd' with hd' | hd'
      · exact hround d' hd'
      rw [List.mem_singleton.mp hd']
      have hmem : a ∈ (contents.view a.entityTable a.recordId).approvals :=
        List.mem_filter.mpr ⟨hold, by simp [Approval.about]⟩
      intro henters
      rcases henters with ⟨row, hinsert⟩ | ⟨i', values, hcall, hset⟩
      · -- the record is there already
        obtain ⟨hnone, -⟩ := hmoves.inserts hinsert
        exact row_of_approvals hinit hbefore _ _ (List.ne_nil_of_mem hmem) hnone
      · -- a move would have spent it
        rw [hcall] at hmoves
        obtain ⟨-, -, -, -, hspent⟩ := hmoves.spends hset
        have hafter : a ∈ (((store pg).applyAll contents e.writes).view a.entityTable
            a.recordId).approvals := List.mem_filter.mpr ⟨ha, by simp [Approval.about]⟩
        rw [hspent] at hafter
        exact absurd hafter List.not_mem_nil
    · have hw := (mem_approvals_applyAll ha).resolve_left hold
      obtain ⟨i, hattempt, heq⟩ := attempt_of_trace hbefore hmoves hw
      exact ⟨history, e, [], i, rfl, hattempt, heq, fun d hd => absurd hd List.not_mem_nil⟩

/-- A transition that needs `n` approvals moves a record after `n` people have approved it, each of
them allowed to fire and to approve, and all of them since the record was last moved. -/
theorem moved_after_approvals (hcompiles : Compiler.compiles spec = true)
    (hnames : ∀ entity ∈ spec.entities, (transitionNamesOf spec entity).Nodup)
    (hrouted : ∀ c, (calls c).Routed spec) (hinit : init.approvals = [])
    {schedule : List (Client × Choice)} {W : World (store pg) Client Thrown Unit}
    (hrun : World.run schedule (server pg host sha256 calls init) = some W)
    {p s : History pg Client} {e : Label (store pg) Client} (hhistory : W.history = p ++ e :: s)
    {i : ExecuteTransitionInput} (hcall : calls e.client = .transition i) {rule : ApprovalRule}
    (hrule : i.transition.approval = some rule) {id : Uuid} {values : List (String × SqlValue)}
    (hmoved : Write.setColumns i.table id values ∈ e.writes) :
    ∃ subs : List String, subs.Nodup ∧ rule.count ≤ subs.length ∧ ∀ sub ∈ subs,
      ∃ q d m j, p ++ [e] = q ++ d :: m ∧ Attempt calls q d j id ∧ j.user.sub = sub ∧
        j.table = i.table ∧ j.workflow = i.workflow ∧ j.transition = i.transition ∧
        ∀ x ∈ m.dropLast, ¬Enters calls i.table id x := by
  obtain ⟨phases, htrace⟩ := trace_of_run hrun
  rw [hhistory] at htrace
  obtain ⟨phases', contents', φ, hbefore, hstep, -⟩ := htrace.split
  have hmoves : Moves pg host sha256 (calls e.client) (phases' e.client) contents' e.cmd e.reply
    e.writes φ := hstep
  have hroute : ∀ c j, calls c = .transition j →
      RoutedAs spec j.table j.transition.name j.workflow j.transition := by
    intro c j hj
    have hc := hrouted c
    rw [hj] at hc
    obtain ⟨entity, h⟩ := hc.onRoute
    exact h.routedAs
  have hmovesᵢ := hmoves
  rw [hcall] at hmovesᵢ
  obtain ⟨-, huuid, hsuffices, hlast, -⟩ := hmovesᵢ.spends hmoved
  simp only [ExecuteTransitionInput.Suffices, hrule] at hsuffices
  refine ⟨approversOf ((contents'.view i.table id).approvals ++ [i.approval id]) i.transition.name,
    List.nodup_dedup _, hsuffices.2, ?_⟩
  intro sub hsub
  obtain ⟨a, ha, rfl⟩ := List.mem_map.mp (List.mem_dedup.mp hsub)
  obtain ⟨ha, hname⟩ := List.mem_filter.mp ha
  rcases List.mem_append.mp ha with ha | ha
  · obtain ⟨hstored, habout⟩ := List.mem_filter.mp ha
    obtain ⟨q, d, m, j, rfl, hattempt, heq, hround⟩ :=
      givenThisRound_of_trace hinit hbefore a hstored
    obtain ⟨htable, hrecord⟩ := about_iff.mp habout
    rw [htable, hrecord] at hround
    rw [hrecord] at hattempt heq
    have hsub : j.user.sub = a.approverSub := congrArg Approval.approverSub heq
    have htable' : j.table = i.table := (congrArg Approval.entityTable heq).trans htable
    have hname' : j.transition.name = i.transition.name :=
      (congrArg Approval.transition heq).trans (by simpa using hname)
    -- the transition is the only one of its name on the table
    have hj := hroute _ j hattempt.call
    rw [hname', htable'] at hj
    obtain ⟨hworkflow, htransition⟩ := hj.unique hcompiles hnames (hroute _ i hcall)
    refine ⟨q, d, m ++ [e], j, by simp, hattempt, hsub, htable', hworkflow, htransition, ?_⟩
    rw [List.dropLast_concat]
    exact hround
  · obtain rfl := List.mem_singleton.mp ha
    obtain ⟨j, hattempt, -⟩ := attempt_of_trace hbefore hmoves (hlast rule hrule)
    cases hcall.symm.trans hattempt.call
    exact ⟨p, e, [], i, rfl, hattempt, rfl, rfl, rfl, rfl, fun x hx => absurd hx List.not_mem_nil⟩

/-- A hash that adds up the first bytes. -/
def prefixSum (s : String) : String :=
  let bytes := s.toByteArray.data.toList.take 75
  String.singleton (Char.ofNat (bytes.foldl (fun n b => n + b.toNat) 100))

/-- Two people approve the vendor. -/
def approvedBy : Bool → Call
  | false => .transition (fire vendorApproval approve "ann")
  | true => .transition (fire vendorApproval approve "robert")

def oneByOne : List (Bool × Choice) :=
  List.replicate 35 (false, untroubled) ++ List.replicate 37 (true, untroubled)

theorem moved_after_approvals_robert :
    ∃ W, World.run oneByOne (server anyId plainHost prefixSum approvedBy oneVendor) =
        some W ∧
      ∃ p e s, W.history = p ++ e :: s ∧ ∃ subs : List String, subs.Nodup ∧ 2 ≤ subs.length ∧
        ∀ sub ∈ subs, ∃ q d m j, p ++ [e] = q ++ d :: m ∧ Attempt approvedBy q d j vendorId ∧
          j.user.sub = sub ∧ j.table = "vendor" ∧ j.workflow = vendorApproval ∧
          j.transition = approve ∧ ∀ x ∈ m.dropLast, ¬Enters approvedBy "vendor" vendorId x := by
  have hmoved : (World.run oneByOne
      (server anyId plainHost prefixSum approvedBy oneVendor)).map (fun W =>
        W.history.any fun e => e.client && e.writes.any fun
          | .setColumns table id _ => table = "vendor" ∧ id = vendorId
          | _ => false) = some true := by decide +kernel
  obtain ⟨W, hrun, hany⟩ := Option.map_eq_some_iff.mp hmoved
  obtain ⟨e, he, hw⟩ := List.any_eq_true.mp hany
  obtain ⟨hclient, hw⟩ := Bool.and_eq_true_iff.mp hw
  obtain ⟨w, hw, hset⟩ := List.any_eq_true.mp hw
  obtain ⟨p, s, hhistory⟩ := List.append_of_mem he
  have hcompiles : Compiler.compiles vendorApp = true := by decide
  have hrouted : ∀ c, (approvedBy c).Routed vendorApp := by
    intro c
    cases c with
    | false | true => exact .transition (by decide) (by decide) (by decide) (by decide)
  have hcall : approvedBy e.client = .transition (fire vendorApproval approve "robert") := by
    rw [hclient]
    rfl
  split at hset
  · rename_i table id values
    obtain ⟨rfl, rfl⟩ := of_decide_eq_true hset
    exact ⟨W, hrun, p, e, s, hhistory, moved_after_approvals hcompiles
      (by decide) hrouted rfl hrun hhistory hcall rfl hw⟩
  · exact absurd hset (by simp)

end Runs

end OpenRupiv.Runtime
