import OpenRupiv.Runtime.StatePaths

/-!
# Two workflows on one record

The state columns of a record are apart, and its approvals are not: a transition that is completed
spends the approvals of every workflow on the record.
-/

namespace OpenRupiv.Runtime

open Js Lib Spec Audit

variable {pg : Postgres} {host : Host} {sha256 : String → String} {spec : AppSpec}
  {entity : EntityDef} {id : Uuid}

/-- The approvals of a record that a workflow has collected. -/
def Contents.collected (κ : Contents) (table : String) (id : Uuid) (workflow : WorkflowDef) :
    List Approval :=
  (κ.view table id).approvals.filter fun a => a.transition ∈ workflow.transitions.map (·.name)

/-- The state of a record in a workflow. -/
def Contents.stateIn (κ : Contents) (table : String) (id : Uuid) (workflow : WorkflowDef) :
    Option (Option SqlValue) :=
  (κ.view table id).row.map fun row => row (toSnakeCase workflow.stateField)

/-- The client is about to commit a transaction that wrote to what is under the lock. -/
def Commits {Client : Type} (V : World (store pg) Client Thrown Unit) (c : Client) (choice : Choice)
    (l : Lock) : Prop :=
  (∃ next, V.procs c = .call .commit next) ∧ choice.fails = false ∧
    ∃ ws, V.session c = .active ws ∧ ∃ w ∈ ws, w.touches l

section Step

variable {Client : Type} [DecidableEq Client] {V V' : World (store pg) Client Thrown Unit}
  {c : Client} {choice : Choice} {l : Lock} {k : Cmd (store pg)} {r : Option k.Reply}
  {ws : List Write}

theorem commits_iff_of_step (h : V.step c choice = some V')
    (hhistory : V'.history = V.history ++ [⟨c, k, r, ws⟩])
    (hk : (∃ w ∈ ws, w.touches l) → k = .commit) :
    Commits V c choice l ↔ ∃ w ∈ ws, w.touches l := by
  obtain ⟨k', next, hproc, ⟨hfailed, rfl⟩ | ⟨eff, heff, -, rfl⟩⟩ := World.step_cases h
  · cases List.append_cancel_left hhistory
    constructor
    · rintro ⟨⟨next', hcommit⟩, hfails, ws, hactive, -⟩
      cases hproc.symm.trans hcommit
      exact absurd hfailed (by simp [perform, hfails, hactive, proceed])
    · rintro ⟨w, hw, -⟩
      exact absurd hw List.not_mem_nil
  · cases List.append_cancel_left hhistory
    constructor
    · rintro ⟨⟨next', hcommit⟩, hfails, ws, hactive, hw⟩
      cases hproc.symm.trans hcommit
      have hwrites : eff.writes = ws := by
        have hproceed := proceed_of_perform heff
        simp only [proceed, hactive] at hproceed
        rw [← Option.some.inj hproceed]
      rw [hwrites]
      exact hw
    · intro hw
      obtain rfl := hk hw
      refine ⟨⟨next, hproc⟩, ?_, eff.writes, ?_, hw⟩
      · by_contra hfails
        exact absurd heff (by simp [perform, Cmd.fallible, hfails])
      · have hproceed := proceed_of_perform heff
        cases hsession : V.session c with
        | active ws =>
          simp only [proceed, hsession] at hproceed
          rw [← Option.some.inj hproceed]
        | closed =>
          simp only [proceed, hsession] at hproceed
          exact absurd hproceed (by simp)
        | idle | aborted =>
          simp only [proceed, hsession] at hproceed
          obtain ⟨w, hmem, -⟩ := hw
          rw [← Option.some.inj hproceed] at hmem
          exact absurd hmem List.not_mem_nil

end Step

theorem Moves.transition {sha256 : String → String} {i : ExecuteTransitionInput} {φ φ' : Phase}
    {κ : Contents} {k : Cmd (store pg)} {r : Option k.Reply} {ws : List Write}
    (h : Moves pg host sha256 (.transition i) φ κ k r ws φ') (huuid : pg.uuid i.recordId = some id) :
    (∀ w ∈ ws, ¬w.touches (.row i.table id)) ∨
      k = .commit ∧ ∃ row outcome, κ.rows i.table id = some row ∧
        i.EffectOf pg sha256 id κ ws outcome := by
  cases h with
  | effect hcall huuid' hrow _ heffect =>
    cases hcall
    cases Option.some.inj (huuid.symm.trans huuid')
    exact .inr ⟨rfl, _, _, hrow, heffect⟩
  | created hcall | updated hcall => exact absurd hcall (by simp)
  | granted | denied | reported | rejected =>
    left
    intro w hw
    rw [List.mem_singleton.mp hw]
    exact not_false
  | _ =>
    left
    intro w hw
    exact absurd hw List.not_mem_nil

theorem ExecuteTransitionInput.EffectOf.touching {sha256 : String → String}
    {i : ExecuteTransitionInput} {κ : Contents} {ws : List Write} {outcome : TransitionOutcome}
    (h : i.EffectOf pg sha256 id κ ws outcome) : ∃ w ∈ ws, w.touches (.row i.table id) := by
  cases h with
  | plain => exact ⟨_, List.mem_cons_self, ⟨rfl, rfl⟩⟩
  | final | pending => exact ⟨_, List.mem_cons_self, about_iff.mpr ⟨rfl, rfl⟩⟩

section Runs

variable {sha256 : String → String} {Client : Type} [DecidableEq Client] {calls : Client → Call}
  {init : Contents}

/-- A call of one workflow leaves the state of the other alone, and its approvals too unless it
completes a transition while there are some. -/
theorem others_undisturbed_iff (hvalid : spec.valid = true)
    (hcompiles : Compiler.compiles spec = true) (hrouted : ∀ c, (calls c).Routed spec)
    {schedule : List (Client × Choice)} {V V' : World (store pg) Client Thrown Unit}
    (hrun : World.run schedule (server pg host sha256 calls init) = some V) {c : Client}
    {choice : Choice} (hstep : V.step c choice = some V') {i : ExecuteTransitionInput}
    (hcall : calls c = .transition i) (huuid : pg.uuid i.recordId = some id) {other : WorkflowDef}
    (hother : other ∈ spec.workflows.getD []) (hentity : other.entity = i.workflow.entity)
    (hfield : other.stateField ≠ i.workflow.stateField)
    (hnames : i.transition.name ∉ other.transitions.map (·.name)) :
    (V'.contents.stateIn i.table id other = V.contents.stateIn i.table id other ∧
        V'.contents.collected i.table id other = V.contents.collected i.table id other) ↔
      (Commits V c choice (.row i.table id) → i.Suffices id (V.contents.view i.table id).approvals →
        V.contents.collected i.table id other = []) := by
  obtain ⟨phases, -, k, r, ws, φ, hhistory, hcontents, hmoves⟩ := moves_of_step hrun hstep
  have hroute := hrouted c
  rw [hcall] at hmoves hroute
  obtain ⟨entity, hi⟩ := hroute.onRoute
  have hs : IsStateField spec entity other.stateField :=
    ⟨hi.mem, other, hother, hentity.trans hi.bound, rfl⟩
  rcases hmoves.transition huuid with hnone | ⟨hk, row, outcome, hrow, heffect⟩
  · -- nothing is written to the record
    have hview : V'.contents.view i.table id = V.contents.view i.table id := by
      rw [hcontents]
      exact view_applyAll_of_not_touches hnone
    have hnot : ¬Commits V c choice (.row i.table id) := by
      rw [commits_iff_of_step hstep hhistory]
      · rintro ⟨w, hw, htouch⟩
        exact hnone w hw htouch
      · rintro ⟨w, hw, htouch⟩
        exact absurd htouch (hnone w hw)
    simp [Contents.stateIn, Contents.collected, hview, hnot]
  · have hcommits : Commits V c choice (.row i.table id) :=
      (commits_iff_of_step hstep hhistory fun _ => hk).mpr heffect.touching
    have hrow' : (V.contents.view i.table id).row = some row := hrow
    rcases heffect.view hrow with ⟨hsuffices, now, hview⟩ | ⟨rule, hrule, hfresh, hlt, hview⟩
    · -- the state moves, and every approval of the record is spent
      rw [← hcontents] at hview
      have hstate : V'.contents.stateIn i.table id other = V.contents.stateIn i.table id other := by
        rw [Contents.stateIn, Contents.stateIn, hview, hrow', Option.map_some, Option.map_some,
          moved_state hvalid hcompiles hs hi, if_neg hfield.symm]
      have hspent : V'.contents.collected i.table id other = [] := by
        rw [Contents.collected, hview, List.filter_nil]
      rw [hstate, hspent]
      constructor
      · intro h _ _
        exact h.2.symm
      · intro h
        exact ⟨rfl, (h hcommits hsuffices).symm⟩
    · -- the approval that is added is for a transition of its own workflow
      rw [← hcontents] at hview
      have hstate : V'.contents.stateIn i.table id other = V.contents.stateIn i.table id other := by
        rw [Contents.stateIn, Contents.stateIn, hview, hrow']
      have hcollected : V'.contents.collected i.table id other =
          V.contents.collected i.table id other := by
        have hnone : [i.approval id].filter (fun a => a.transition ∈ other.transitions.map (·.name)) =
            [] := by
          simpa [ExecuteTransitionInput.approval] using hnames
        rw [Contents.collected, Contents.collected, hview, List.filter_append, hnone,
          List.append_nil]
      have hnot : ¬i.Suffices id (V.contents.view i.table id).approvals := by
        simp only [ExecuteTransitionInput.Suffices, hrule, not_and]
        intro _ hle
        exact absurd hle (by omega)
      exact ⟨fun _ _ hsuffices => absurd hsuffices hnot, fun _ => ⟨hstate, hcollected⟩⟩

theorem others_undisturbed_vendors :
    ∃ V V', alone oneVendor (.transition (fire riskReview close "kim"))
        (List.replicate 19 untroubled) = some V ∧ V.step () untroubled = some V' ∧
      ((V'.contents.stateIn "vendor" vendorId vendorApproval =
            V.contents.stateIn "vendor" vendorId vendorApproval ∧
          V'.contents.collected "vendor" vendorId vendorApproval =
            V.contents.collected "vendor" vendorId vendorApproval) ↔
        (Commits V () untroubled (.row "vendor" vendorId) →
          (fire riskReview close "kim").Suffices vendorId
            (V.contents.view "vendor" vendorId).approvals →
          V.contents.collected "vendor" vendorId vendorApproval = [])) := by
  have hsome : ((alone oneVendor (.transition (fire riskReview close "kim"))
      (List.replicate 19 untroubled)).bind fun V => V.step () untroubled).isSome = true := by
    decide +kernel
  obtain ⟨V', hV'⟩ := Option.isSome_iff_exists.mp hsome
  obtain ⟨V, hrun, hstep⟩ := Option.bind_eq_some_iff.mp hV'
  refine ⟨V, V', hrun, hstep, ?_⟩
  have hother : vendorApproval ∈ vendorApp.workflows.getD [] := by decide
  exact others_undisturbed_iff valid_vendorApp (by decide)
    (fun _ => .transition (by decide) (by decide) (by decide) (by decide)) hrun hstep rfl
    (by decide +kernel) hother rfl (by decide) (by decide)

/-- One of two approvals is given. -/
def pendingVendor : Contents :=
  { oneVendor with approvals := [⟨"vendor", vendorId, "approve", "ann"⟩] }

/-- A hash that tells texts of different lengths apart. -/
def lengthHash (s : String) : String := toString s.utf8ByteSize

/-- A bot closes the risk of the vendor that waits for its second approval. -/
theorem closed_by_bot :
    (World.run (List.replicate 23 ((), untroubled)) (server postgresText plainHost lengthHash
      (fun _ => .transition (fire riskReview close "agent:bot")) pendingVendor)).map
        (fun W => (W.contents.stateIn "vendor" vendorId riskReview,
          W.contents.collected "vendor" vendorId vendorApproval)) =
      some (some (some (.str (ofString "closed"))), []) := by
  decide +kernel

/-- The risk is closed, and the approval that was given in the other workflow is gone. -/
theorem close_spends_approvals :
    pendingVendor.collected "vendor" vendorId vendorApproval =
        [⟨"vendor", vendorId, "approve", "ann"⟩] ∧
      ∃ W, World.run (List.replicate 23 ((), untroubled)) (server postgresText plainHost lengthHash
          (fun _ => .transition (fire riskReview close "agent:bot")) pendingVendor) = some W ∧
        W.contents.collected "vendor" vendorId vendorApproval = [] := by
  refine ⟨by decide, ?_⟩
  obtain ⟨W, hrun, hW⟩ := Option.map_eq_some_iff.mp closed_by_bot
  exact ⟨W, hrun, (Prod.mk.inj hW).2⟩

end Runs

end OpenRupiv.Runtime
