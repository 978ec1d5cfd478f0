import OpenRupiv.Runtime.Principals
import OpenRupiv.Runtime.Routes

/-!
# Pending approvals

An approval waits in `workflow_approvals` until enough of them are there.  It is for a transition
that the record can still take, and the state change that the last approval completes spends them
all, so that a round begins without any.
-/

namespace OpenRupiv.Runtime

open Js Lib Spec Audit

variable {pg : Postgres} {host : Host} {sha256 : String → String} {spec : AppSpec}

/-- The table has a transition of that name. -/
structure RoutedAs (spec : AppSpec) (table name : String) (w : WorkflowDef) (t : TransitionDef) :
    Prop where
  entity : ∃ entity ∈ spec.entities, w.entity = entity.name ∧ entityTable entity.name = table
  workflow : w ∈ spec.workflows.getD []
  transition : t ∈ w.transitions
  name : t.name = name

theorem OnRoute.routedAs {entity : EntityDef} {i : ExecuteTransitionInput}
    (h : OnRoute spec entity i) : RoutedAs spec i.table i.transition.name i.workflow i.transition :=
  ⟨⟨entity, h.mem, h.bound, h.table_eq.symm⟩, h.workflow, h.transition, rfl⟩

private theorem eq_of_nodup_flatMap {α β γ : Type} {xs : List α} {f : α → List β} {g : β → γ}
    (h : ((xs.flatMap f).map g).Nodup) {x x' : α} (hx : x ∈ xs) (hx' : x' ∈ xs) {y y' : β}
    (hy : y ∈ f x) (hy' : y' ∈ f x') (heq : g y = g y') : x = x' ∧ y = y' := by
  rw [List.map_flatMap, List.nodup_flatMap] at h
  obtain ⟨hnodup, hdisjoint⟩ := h
  have hsame : x = x' := by
    by_contra hne
    have : Std.Symm (Function.onFun List.Disjoint fun a => (f a).map g) :=
      ⟨fun _ _ h => List.Disjoint.symm h⟩
    apply hdisjoint.forall hx hx' hne (List.mem_map_of_mem hy)
    rw [heq]
    exact List.mem_map_of_mem hy'
  subst hsame
  exact ⟨rfl, List.inj_on_of_nodup_map (hnodup x hx) hy hy' heq⟩

theorem RoutedAs.unique (hcompiles : Compiler.compiles spec = true)
    (hnames : ∀ entity ∈ spec.entities, (transitionNamesOf spec entity).Nodup) {table name : String}
    {w w' : WorkflowDef} {t t' : TransitionDef} (h : RoutedAs spec table name w t)
    (h' : RoutedAs spec table name w' t') : w = w' ∧ t = t' := by
  obtain ⟨entity, he, hbound, htable⟩ := h.entity
  obtain ⟨entity', he', hbound', htable'⟩ := h'.entity
  obtain rfl := entity_of_table hcompiles he he' (htable.trans htable'.symm)
  have hmem : w ∈ (buildEntityModel spec entity).workflows :=
    List.mem_filter.mpr ⟨h.workflow, by simpa using hbound⟩
  have hmem' : w' ∈ (buildEntityModel spec entity).workflows :=
    List.mem_filter.mpr ⟨h'.workflow, by simpa using hbound'⟩
  exact eq_of_nodup_flatMap (hnames entity he) hmem hmem' h.transition h'.transition
    (h.name.trans h'.name.symm)

/-- An approval of a record waits: its transition starts in the state of the record, and there are
too few for it. -/
structure Waits (view : RecordView) (w : WorkflowDef) (t : TransitionDef) : Prop where
  state : ∃ row, view.row = some row ∧
    row (toSnakeCase w.stateField) = some (.str (ofString t.from))
  count : ∃ rule, t.approval = some rule ∧ (approversOf view.approvals t.name).length < rule.count

/-- All approvals of the record wait. -/
def AllWait (spec : AppSpec) (table : String) (view : RecordView) : Prop :=
  ∀ a ∈ view.approvals, ∃ w t, RoutedAs spec table a.transition w t ∧ Waits view w t

theorem approversOf_concat_of_ne {approvals : List Approval} {a : Approval} {name : String}
    (h : a.transition ≠ name) : approversOf (approvals ++ [a]) name = approversOf approvals name := by
  have hnone : [a].filter (fun a => a.transition = name) = [] := by simpa using h
  rw [approversOf, approversOf, List.filter_append, hnone, List.append_nil]

section Step

variable {call : Call} {table : String} {id : Uuid} {view view' : RecordView}
  (hvalid : spec.valid = true) (hcompiles : Compiler.compiles spec = true)

include hvalid hcompiles

theorem Changes.allWait (hrouted : call.Routed spec) (h : Changes pg host call table id view view')
    (hwait : AllWait spec table view) : AllWait spec table view' := by
  cases h with
  | kept => exact hwait
  | moved => exact fun a ha => absurd ha List.not_mem_nil
  | @approved i rule row approvals hcall htable huuid hcheck hrule hfresh hlt =>
    subst hcall
    obtain ⟨entity, hi⟩ := hrouted.onRoute
    have hroute := hi.routedAs
    rw [htable] at hroute
    have hnew : Waits ⟨some row, approvals ++ [i.approval id]⟩ i.workflow i.transition :=
      ⟨⟨row, rfl, (checkRow_eq_ok hcheck).1⟩, rule, hrule, hlt⟩
    intro a ha
    rcases List.mem_append.mp ha with ha | ha
    · obtain ⟨w, t, hroute', hwaits⟩ := hwait a ha
      by_cases hname : a.transition = i.transition.name
      · rw [hname] at hroute' ⊢
        exact ⟨_, _, hroute, hnew⟩
      · refine ⟨w, t, hroute', hwaits.state, ?_⟩
        obtain ⟨rule', hrule', hcount⟩ := hwaits.count
        refine ⟨rule', hrule', ?_⟩
        show (approversOf (approvals ++ [i.approval id]) t.name).length < _
        rw [approversOf_concat_of_ne]
        · exact hcount
        · rw [hroute'.name]
          exact Ne.symm hname
    · rw [List.mem_singleton.mp ha]
      exact ⟨_, _, hroute, hnew⟩
  | created =>
    intro a ha
    obtain ⟨w, t, -, hwaits⟩ := hwait a ha
    obtain ⟨row, hrow, -⟩ := hwaits.state
    exact absurd hrow (by simp)
  | @updated r columns stored row approvals now hcall htable hprepare huuid hstored =>
    intro a ha
    obtain ⟨w, t, hroute, hwaits⟩ := hwait a ha
    refine ⟨w, t, hroute, ?_, hwaits.count⟩
    obtain ⟨row', hrow, hstate⟩ := hwaits.state
    cases hrow
    obtain ⟨entity, he, hbound, hentity⟩ := hroute.entity
    have hs : IsStateField spec entity w.stateField := ⟨he, w, hroute.workflow, hbound, rfl⟩
    obtain ⟨owner, howner, hmodel⟩ := hrouted.onEntity
      (show call.request = some (r, .update) by rw [hcall]; rfl)
    have hrtable : r.table = entityTable owner.name := by rw [EntityRequest.table, hmodel]; rfl
    obtain rfl := entity_of_table hcompiles howner he (by rw [← hrtable, htable, hentity])
    refine ⟨_, rfl, ?_⟩
    rw [setAll_of_not_mem]
    · exact hstate
    · exact EntityRequest.updated_columns hvalid hcompiles hs hmodel hprepare hstored

end Step

section Runs

variable {Client : Type} [DecidableEq Client] {calls : Client → Call} {init contents : Contents}
  {history : History pg Client} {phases : Client → Phase}

theorem allWait_of_trace (hvalid : spec.valid = true) (hcompiles : Compiler.compiles spec = true)
    (hrouted : ∀ c, (calls c).Routed spec) (hinit : init.approvals = [])
    (h : (protocol pg host sha256 calls).Trace (fun _ => .ready) init history phases contents)
    (table : String) (id : Uuid) : AllWait spec table (contents.view table id) := by
  induction h with
  | nil =>
    intro a ha
    rw [Contents.view, hinit] at ha
    exact absurd ha List.not_mem_nil
  | snoc _ hstep ih =>
    have hmoves : Moves pg host sha256 (calls _) _ _ _ _ _ _ := hstep
    exact (hmoves.changes table id).allWait hvalid hcompiles (hrouted _) ih

/-- In every reachable state an approval is for a transition from the state that its record is in,
and the approvals that are stored for the transition are too few. -/
theorem approvals_wait (hvalid : spec.valid = true) (hcompiles : Compiler.compiles spec = true)
    (hnames : ∀ entity ∈ spec.entities, (transitionNamesOf spec entity).Nodup)
    (hrouted : ∀ c, (calls c).Routed spec) (hinit : init.approvals = [])
    {schedule : List (Client × Choice)} {W : World (store pg) Client Thrown Unit}
    (hrun : World.run schedule (server pg host sha256 calls init) = some W) {a : Approval}
    (ha : a ∈ W.contents.approvals) :
    (∃ w t, RoutedAs spec a.entityTable a.transition w t) ∧
      ∀ w t, RoutedAs spec a.entityTable a.transition w t →
        (∃ row, W.contents.rows a.entityTable a.recordId = some row ∧
          row (toSnakeCase w.stateField) = some (.str (ofString t.from))) ∧
        ∃ rule, t.approval = some rule ∧
          (W.contents.approvers a.entityTable a.recordId t.name).length < rule.count := by
  obtain ⟨phases, htrace⟩ := trace_of_run hrun
  have hwait := allWait_of_trace hvalid hcompiles hrouted hinit htrace a.entityTable a.recordId
  have hmem : a ∈ (W.contents.view a.entityTable a.recordId).approvals :=
    List.mem_filter.mpr ⟨ha, by simp [Approval.about]⟩
  obtain ⟨w, t, hroute, hwaits⟩ := hwait a hmem
  refine ⟨⟨w, t, hroute⟩, ?_⟩
  intro w' t' hroute'
  obtain ⟨rfl, rfl⟩ := hroute.unique hcompiles hnames hroute'
  obtain ⟨rule, hrule, hlt⟩ := hwaits.count
  exact ⟨hwaits.state, rule, hrule, by rwa [Contents.approvers_eq]⟩

/-- The first of two approvals. -/
theorem approvals_wait_ann :
    ∃ W, World.run (List.replicate 33 ((), untroubled)) (server postgresText plainHost lengthHash
        (fun _ => .transition (fire vendorApproval approve "ann")) oneVendor) = some W ∧
      ∃ a ∈ W.contents.approvals,
        (∃ w t, RoutedAs vendorApp a.entityTable a.transition w t) ∧
        ∀ w t, RoutedAs vendorApp a.entityTable a.transition w t →
          (∃ row, W.contents.rows a.entityTable a.recordId = some row ∧
            row (toSnakeCase w.stateField) = some (.str (ofString t.from))) ∧
          ∃ rule, t.approval = some rule ∧
            (W.contents.approvers a.entityTable a.recordId t.name).length < rule.count := by
  have happroved : (World.run (List.replicate 33 ((), untroubled)) (server postgresText plainHost
      lengthHash (fun _ => .transition (fire vendorApproval approve "ann")) oneVendor)).map
      (fun W => W.contents.approvals.length) = some 1 := by decide +kernel
  obtain ⟨W, hrun, hlength⟩ := Option.map_eq_some_iff.mp happroved
  obtain ⟨a, ha⟩ := List.exists_mem_of_length_pos (hlength ▸ Nat.one_pos)
  refine ⟨W, hrun, a, ha, approvals_wait valid_vendorApp (by decide) (by decide) ?_ rfl hrun ha⟩
  intro _
  exact .transition (by decide) (by decide) (by decide) (by decide)

end Runs

end OpenRupiv.Runtime
