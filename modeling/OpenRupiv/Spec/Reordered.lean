import OpenRupiv.Spec.Acceptance
import OpenRupiv.Lib.Reordering

/-!
# Specs up to the order of their arrays

Two specs are reordered when they differ in the order of their arrays only, at every level of
nesting.  Validation accepts the one exactly when it accepts the other.
-/

namespace OpenRupiv.Spec

open Lib

structure FieldDef.Reordered (x y : FieldDef) : Prop where
  name : x.name = y.name
  type : x.type = y.type
  required : x.required = y.required
  unique : x.unique = y.unique
  values : Option.Rel List.Perm x.values y.values
  entity : x.entity = y.entity
  default : x.default = y.default

structure EntityDef.Reordered (x y : EntityDef) : Prop where
  name : x.name = y.name
  fields : PermOf FieldDef.Reordered x.fields y.fields
  relations : Option.Rel List.Perm x.relations y.relations

structure PageDef.Reordered (x y : PageDef) : Prop where
  name : x.name = y.name
  type : x.type = y.type
  entity : x.entity = y.entity
  title : x.title = y.title
  fields : Option.Rel List.Perm x.fields y.fields

structure TransitionGuard.Reordered (x y : TransitionGuard) : Prop where
  roles : Option.Rel List.Perm x.roles y.roles
  require : Option.Rel List.Perm x.require y.require

structure ApprovalRule.Reordered (x y : ApprovalRule) : Prop where
  count : x.count = y.count
  roles : Option.Rel List.Perm x.roles y.roles

structure TransitionDef.Reordered (x y : TransitionDef) : Prop where
  name : x.name = y.name
  «from» : x.from = y.from
  «to» : x.to = y.to
  guard : Option.Rel TransitionGuard.Reordered x.guard y.guard
  approval : Option.Rel ApprovalRule.Reordered x.approval y.approval

structure WorkflowDef.Reordered (x y : WorkflowDef) : Prop where
  name : x.name = y.name
  entity : x.entity = y.entity
  stateField : x.stateField = y.stateField
  initial : x.initial = y.initial
  transitions : PermOf TransitionDef.Reordered x.transitions y.transitions

structure AgentTaskDef.Reordered (x y : AgentTaskDef) : Prop where
  name : x.name = y.name
  tools : Option.Rel List.Perm x.tools y.tools
  proposes : Option.Rel List.Perm x.proposes y.proposes

structure AppMeta.Reordered (x y : AppMeta) : Prop where
  name : x.name = y.name
  slug : x.slug = y.slug
  description : x.description = y.description
  version : x.version = y.version
  roles : Option.Rel List.Perm x.roles y.roles

structure AppSpec.Reordered (x y : AppSpec) : Prop where
  specVersion : x.specVersion = y.specVersion
  app : x.app.Reordered y.app
  entities : PermOf EntityDef.Reordered x.entities y.entities
  pages : Option.Rel (PermOf PageDef.Reordered) x.pages y.pages
  workflows : Option.Rel (PermOf WorkflowDef.Reordered) x.workflows y.workflows
  policies : Option.Rel List.Perm x.policies y.policies
  agents : Option.Rel (PermOf AgentTaskDef.Reordered) x.agents y.agents
  evidence : Option.Rel List.Perm x.evidence y.evidence

section Refl

theorem rel_perm_refl {α : Type} (xs : Option (List α)) : Option.Rel List.Perm xs xs :=
  rel_refl List.Perm.refl xs

theorem FieldDef.Reordered.refl (x : FieldDef) : x.Reordered x :=
  ⟨rfl, rfl, rfl, rfl, rel_perm_refl _, rfl, rfl⟩

theorem EntityDef.Reordered.refl (x : EntityDef) : x.Reordered x :=
  ⟨rfl, .of_perm (.refl _) FieldDef.Reordered.refl, rel_perm_refl _⟩

theorem TransitionDef.Reordered.refl (x : TransitionDef) : x.Reordered x :=
  ⟨rfl, rfl, rfl, rel_refl (fun _ => ⟨rel_perm_refl _, rel_perm_refl _⟩) _,
    rel_refl (fun _ => ⟨rfl, rel_perm_refl _⟩) _⟩

theorem WorkflowDef.Reordered.refl (x : WorkflowDef) : x.Reordered x :=
  ⟨rfl, rfl, rfl, rfl, .of_perm (.refl _) TransitionDef.Reordered.refl⟩

theorem AppMeta.Reordered.refl (x : AppMeta) : x.Reordered x :=
  ⟨rfl, rfl, rfl, rfl, rel_perm_refl _⟩

end Refl

section Conforms

theorem all_of_permOf {α : Type} {R : α → α → Prop} {p : α → Bool} {xs ys : List α}
    (h : PermOf R xs ys) (hp : ∀ x y, R x y → p x = p y) : xs.all p = ys.all p := by
  rw [Bool.eq_iff_iff, List.all_eq_true, List.all_eq_true]
  apply h.forall_iff
  intro x _ y _ hr
  rw [hp x y hr]

theorem all_of_perm {α : Type} {p : α → Bool} {xs ys : List α} (h : xs.Perm ys) :
    xs.all p = ys.all p := by
  apply all_of_permOf (PermOf.of_perm h fun x => Eq.refl x)
  rintro x y rfl
  rfl

theorem decide_ne_nil_of_permOf {α : Type} {R : α → α → Prop} [DecidableEq α] {xs ys : List α}
    (h : PermOf R xs ys) : decide (xs ≠ []) = decide (ys ≠ []) := by
  rw [decide_eq_decide, not_iff_not]
  exact h.eq_nil_iff

theorem decide_ne_nil_of_perm {α : Type} [DecidableEq α] {xs ys : List α} (h : xs.Perm ys) :
    decide (xs ≠ []) = decide (ys ≠ []) :=
  decide_ne_nil_of_permOf (PermOf.of_perm h fun x => Eq.refl x)

theorem distinctNames_perm {pattern : String → Bool} {xs ys : List String} (h : xs.Perm ys) :
    distinctNames pattern xs = distinctNames pattern ys := by
  rw [distinctNames, distinctNames, decide_ne_nil_of_perm h, decide_eq_decide.mpr h.nodup_iff,
    all_of_perm h]

theorem optional_distinctNames {pattern : String → Bool} {xs ys : Option (List String)}
    (h : Option.Rel List.Perm xs ys) :
    xs.all (distinctNames pattern) = ys.all (distinctNames pattern) :=
  all_iff_of_rel h fun _ _ hperm => distinctNames_perm hperm

theorem FieldDef.Reordered.conforms {x y : FieldDef} (h : x.Reordered y) :
    x.conforms = y.conforms := by
  rw [FieldDef.conforms, FieldDef.conforms, h.name, optional_distinctNames h.values, h.entity,
    h.default]

theorem EntityDef.Reordered.conforms {x y : EntityDef} (h : x.Reordered y) :
    x.conforms = y.conforms := by
  have hrelations : (x.relations.all fun relations => relations.all RelationDef.conforms) =
      y.relations.all fun relations => relations.all RelationDef.conforms :=
    all_iff_of_rel h.relations fun _ _ hperm => all_of_perm hperm
  rw [EntityDef.conforms, EntityDef.conforms, h.name, hrelations, decide_ne_nil_of_permOf h.fields,
    all_of_permOf h.fields fun _ _ hf => hf.conforms]

theorem PageDef.Reordered.conforms {x y : PageDef} (h : x.Reordered y) :
    x.conforms = y.conforms := by
  rw [PageDef.conforms, PageDef.conforms, h.name, h.entity, optional_distinctNames h.fields]

theorem TransitionGuard.Reordered.conforms {x y : TransitionGuard} (h : x.Reordered y) :
    x.conforms = y.conforms := by
  have hrequire : (x.require.all fun predicates =>
        decide (predicates ≠ []) && predicates.all FieldPredicate.conforms) =
      y.require.all fun predicates =>
        decide (predicates ≠ []) && predicates.all FieldPredicate.conforms := by
    apply all_iff_of_rel h.require
    intro xs ys hperm
    rw [decide_ne_nil_of_perm hperm, all_of_perm hperm]
  rw [TransitionGuard.conforms, TransitionGuard.conforms, isSome_of_rel h.roles,
    isSome_of_rel h.require, optional_distinctNames h.roles, hrequire]

theorem TransitionDef.Reordered.conforms {x y : TransitionDef} (h : x.Reordered y) :
    x.conforms = y.conforms := by
  have hguard := all_iff_of_rel h.guard fun _ _ hg => hg.conforms
  have happroval : x.approval.all ApprovalRule.conforms = y.approval.all ApprovalRule.conforms := by
    apply all_iff_of_rel h.approval
    intro r s hr
    rw [ApprovalRule.conforms, ApprovalRule.conforms, hr.count, optional_distinctNames hr.roles]
  rw [TransitionDef.conforms, TransitionDef.conforms, h.name, h.from, h.to, hguard, happroval]

theorem WorkflowDef.Reordered.conforms {x y : WorkflowDef} (h : x.Reordered y) :
    x.conforms = y.conforms := by
  rw [WorkflowDef.conforms, WorkflowDef.conforms, h.name, h.entity, h.stateField, h.initial,
    decide_ne_nil_of_permOf h.transitions, all_of_permOf h.transitions fun _ _ ht => ht.conforms]

theorem AgentTaskDef.Reordered.conforms {x y : AgentTaskDef} (h : x.Reordered y) :
    x.conforms = y.conforms := by
  have htools : (x.tools.all fun tools => decide tools.Nodup && tools.all isKebabName) =
      y.tools.all fun tools => decide tools.Nodup && tools.all isKebabName := by
    apply all_iff_of_rel h.tools
    intro xs ys hperm
    rw [decide_eq_decide.mpr hperm.nodup_iff, all_of_perm hperm]
  have hproposes : (x.proposes.all fun refs => decide (refs ≠ []) && refs.all fun ref =>
        isKebabName ref.workflow && isKebabName ref.transition) =
      y.proposes.all fun refs => decide (refs ≠ []) && refs.all fun ref =>
        isKebabName ref.workflow && isKebabName ref.transition := by
    apply all_iff_of_rel h.proposes
    intro xs ys hperm
    rw [decide_ne_nil_of_perm hperm, all_of_perm hperm]
  rw [AgentTaskDef.conforms, AgentTaskDef.conforms, h.name, htools, hproposes]

theorem AppSpec.Reordered.conforms {x y : AppSpec} (h : x.Reordered y) :
    x.conforms = y.conforms := by
  have happ : x.app.conforms = y.app.conforms := by
    rw [AppMeta.conforms, AppMeta.conforms, h.app.name, h.app.slug, h.app.version,
      optional_distinctNames h.app.roles]
  rw [AppSpec.conforms, AppSpec.conforms, happ, decide_ne_nil_of_permOf h.entities,
    all_of_permOf h.entities fun _ _ he => he.conforms,
    all_of_permOf (permOf_getD h.pages) fun _ _ hp => hp.conforms,
    all_of_permOf (permOf_getD h.workflows) fun _ _ hw => hw.conforms,
    all_of_perm (perm_getD h.policies),
    all_of_permOf (permOf_getD h.agents) fun _ _ hk => hk.conforms,
    all_of_perm (perm_getD h.evidence)]

end Conforms

section Accepted

theorem FieldDef.Reordered.mem_values {x y : FieldDef} (h : x.Reordered y) (s : String) :
    s ∈ x.values.getD [] ↔ s ∈ y.values.getD [] :=
  (perm_getD h.values).mem_iff

theorem FieldDef.Reordered.accepted_iff {x y : FieldDef} (h : x.Reordered y)
    {names names' : List String} (hnames : names.Perm names') :
    x.Accepted names ↔ y.Accepted names' := by
  have htarget : x.target = y.target := by rw [FieldDef.target, FieldDef.target, h.entity]
  have hfits : ∀ value, x.DefaultFits value ↔ y.DefaultFits value := by
    intro value
    unfold FieldDef.DefaultFits
    rw [h.type]
    cases y.type <;> cases value <;> simp only [h.mem_values]
  constructor
  · intro ha
    refine ⟨?_, ?_, ?_, ?_⟩
    · rw [← isSome_of_rel h.values, ← h.type]
      exact ha.values
    · simpa only [h.type, htarget, hnames.mem_iff] using ha.reference
    · simpa only [h.type, htarget] using ha.target
    · simpa only [h.default, hfits] using ha.default
  · intro ha
    refine ⟨?_, ?_, ?_, ?_⟩
    · rw [isSome_of_rel h.values, h.type]
      exact ha.values
    · simpa only [h.type, htarget, hnames.mem_iff] using ha.reference
    · simpa only [h.type, htarget] using ha.target
    · simpa only [h.default, hfits] using ha.default

theorem EntityDef.Reordered.fieldNames {x y : EntityDef} (h : x.Reordered y) :
    (x.fields.map (·.name)).Perm (y.fields.map (·.name)) :=
  h.fields.map_perm fun _ _ hf => hf.name

theorem EntityDef.Reordered.accepted_iff {x y : EntityDef} (h : x.Reordered y)
    {names names' : List String} (hnames : names.Perm names') :
    x.Accepted names ↔ y.Accepted names' := by
  have hrelations := perm_getD h.relations
  have hmembers := h.fieldNames.append (hrelations.map (·.name))
  have hfields := h.fields.forall_iff fun f _ g _ (hf : f.Reordered g) => hf.accepted_iff hnames
  have htargets : (∀ relation ∈ x.relations.getD [], relation.to ∈ names) ↔
      ∀ relation ∈ y.relations.getD [], relation.to ∈ names' := by
    simp only [hrelations.mem_iff, hnames.mem_iff]
  constructor
  · intro ha
    exact ⟨hmembers.nodup_iff.mp ha.members, hfields.mp ha.fields, htargets.mp ha.relations⟩
  · intro ha
    exact ⟨hmembers.nodup_iff.mpr ha.members, hfields.mpr ha.fields, htargets.mpr ha.relations⟩

theorem PageDef.Reordered.accepted_iff {x y : PageDef} (h : x.Reordered y)
    {entities entities' : List EntityDef} (he : PermOf EntityDef.Reordered entities entities') :
    x.Accepted entities ↔ y.Accepted entities' := by
  apply he.exists_iff
  intro entity _ entity' _ hentity
  rw [hentity.name, h.entity]
  simp only [(perm_getD h.fields).mem_iff, hentity.fieldNames.mem_iff]

theorem FieldPredicate.accepted_iff {predicate : FieldPredicate} {entity entity' : EntityDef}
    (h : entity.Reordered entity') : predicate.Accepted entity ↔ predicate.Accepted entity' := by
  apply h.fields.exists_iff
  intro field _ field' _ hfield
  have hfits : ∀ value, field.ValueFits value ↔ field'.ValueFits value := by
    intro value
    unfold FieldDef.ValueFits
    rw [hfield.type]
    cases field'.type <;> cases value <;> simp only [hfield.mem_values]
  simp only [hfield.name, hfield.type, hfits]

private theorem perm_bind {α β : Type} {R : α → α → Prop} {f : α → Option (List β)}
    {x y : Option α} (h : Option.Rel R x y) (hf : ∀ a b, R a b → Option.Rel List.Perm (f a) (f b)) :
    ((x.bind f).getD []).Perm ((y.bind f).getD []) := by
  cases h with
  | none => exact .refl _
  | some hr => exact perm_getD (hf _ _ hr)

theorem TransitionDef.Reordered.accepted_iff {x y : TransitionDef} (h : x.Reordered y)
    {roles roles' : List String} (hroles : roles.Perm roles') {entity entity' : EntityDef}
    (he : entity.Reordered entity') {states states' : List String} (hstates : states.Perm states') :
    x.Accepted roles entity states ↔ y.Accepted roles' entity' states' := by
  have hguard := perm_bind (f := fun g : TransitionGuard => g.roles) h.guard fun _ _ hg => hg.roles
  have hrequire := perm_bind (f := fun g : TransitionGuard => g.require) h.guard fun _ _ hg => hg.require
  have happroval := perm_bind (f := fun r : ApprovalRule => r.roles) h.approval fun _ _ hr => hr.roles
  constructor
  · intro ha
    refine ⟨?_, ?_, ?_, ?_, ?_⟩
    · rw [← h.from, ← hstates.mem_iff]
      exact ha.from
    · rw [← h.to, ← hstates.mem_iff]
      exact ha.to
    · simpa only [hguard.mem_iff, hroles.mem_iff] using ha.guardRoles
    · simpa only [hrequire.mem_iff, FieldPredicate.accepted_iff he] using ha.require
    · simpa only [happroval.mem_iff, hroles.mem_iff] using ha.approvalRoles
  · intro ha
    refine ⟨?_, ?_, ?_, ?_, ?_⟩
    · rw [h.from, hstates.mem_iff]
      exact ha.from
    · rw [h.to, hstates.mem_iff]
      exact ha.to
    · simpa only [hguard.mem_iff, hroles.mem_iff] using ha.guardRoles
    · simpa only [hrequire.mem_iff, FieldPredicate.accepted_iff he] using ha.require
    · simpa only [happroval.mem_iff, hroles.mem_iff] using ha.approvalRoles

theorem WorkflowDef.Reordered.accepted_iff {x y : WorkflowDef} (h : x.Reordered y)
    {roles roles' : List String} (hroles : roles.Perm roles') {entities entities' : List EntityDef}
    (he : PermOf EntityDef.Reordered entities entities') :
    x.Accepted roles entities ↔ y.Accepted roles' entities' := by
  apply he.exists_iff
  intro entity _ entity' _ hentity
  rw [hentity.name, h.entity]
  apply and_congr_right'
  apply hentity.fields.exists_iff
  intro field _ field' _ hfield
  rw [hfield.name, h.stateField]
  apply and_congr_right'
  have hnames : (x.transitions.map (·.name)).Perm (y.transitions.map (·.name)) :=
    h.transitions.map_perm fun _ _ ht => ht.name
  have htransitions := h.transitions.forall_iff fun t _ u _ (ht : t.Reordered u) =>
    ht.accepted_iff hroles hentity (perm_getD hfield.values)
  constructor
  · intro ha
    refine ⟨?_, ?_, ?_, hnames.nodup_iff.mp ha.transitionNames, htransitions.mp ha.transitions⟩
    · rw [← hfield.type]
      exact ha.type
    · rw [← isSome_of_rel hfield.values]
      exact ha.values
    · rw [← h.initial, ← hfield.mem_values]
      exact ha.initial
  · intro ha
    refine ⟨?_, ?_, ?_, hnames.nodup_iff.mpr ha.transitionNames, htransitions.mpr ha.transitions⟩
    · rw [hfield.type]
      exact ha.type
    · rw [isSome_of_rel hfield.values]
      exact ha.values
    · rw [h.initial, hfield.mem_values]
      exact ha.initial

theorem AgentProposalRef.accepted_iff {ref : AgentProposalRef} {workflows workflows' : List WorkflowDef}
    (h : PermOf WorkflowDef.Reordered workflows workflows') :
    ref.Accepted workflows ↔ ref.Accepted workflows' := by
  apply h.exists_iff
  intro workflow _ workflow' _ hworkflow
  rw [hworkflow.name]
  apply and_congr_right'
  apply hworkflow.transitions.exists_iff
  intro transition _ transition' _ htransition
  rw [htransition.name, isSome_of_rel htransition.approval]

theorem AppSpec.Reordered.accepted_iff {x y : AppSpec} (h : x.Reordered y) :
    x.Accepted ↔ y.Accepted := by
  have hpages := permOf_getD h.pages
  have hworkflows := permOf_getD h.workflows
  have hagents := permOf_getD h.agents
  have hroles := perm_getD h.app.roles
  have hentityNames : (x.entities.map (·.name)).Perm (y.entities.map (·.name)) :=
    h.entities.map_perm fun _ _ he => he.name
  have hpageNames : ((x.pages.getD []).map (·.name)).Perm ((y.pages.getD []).map (·.name)) :=
    hpages.map_perm fun _ _ hp => hp.name
  have hworkflowNames :
      ((x.workflows.getD []).map (·.name)).Perm ((y.workflows.getD []).map (·.name)) :=
    hworkflows.map_perm fun _ _ hw => hw.name
  have hagentNames : ((x.agents.getD []).map (·.name)).Perm ((y.agents.getD []).map (·.name)) :=
    hagents.map_perm fun _ _ hk => hk.name
  have hentity := h.entities.forall_iff fun e _ f _ (he : e.Reordered f) =>
    he.accepted_iff hentityNames
  have hpage := hpages.forall_iff fun p _ q _ (hp : p.Reordered q) => hp.accepted_iff h.entities
  have hworkflow := hworkflows.forall_iff fun w _ v _ (hw : w.Reordered v) =>
    hw.accepted_iff hroles h.entities
  have hagent : (∀ task ∈ x.agents.getD [], ∀ ref ∈ task.proposes.getD [],
        ref.Accepted (x.workflows.getD [])) ↔
      ∀ task ∈ y.agents.getD [], ∀ ref ∈ task.proposes.getD [],
        ref.Accepted (y.workflows.getD []) := by
    apply hagents.forall_iff
    intro task _ task' _ htask
    simp only [(perm_getD htask.proposes).mem_iff, AgentProposalRef.accepted_iff hworkflows]
  have hversion : (x.agents.getD [] ≠ [] → x.specVersion = .v0_2) ↔
      (y.agents.getD [] ≠ [] → y.specVersion = .v0_2) := by
    rw [ne_eq, hagents.eq_nil_iff, h.specVersion]
  constructor
  · intro ha
    exact ⟨hentityNames.nodup_iff.mp ha.entityNames, hentity.mp ha.entities,
      hpageNames.nodup_iff.mp ha.pageNames, hpage.mp ha.pages,
      hworkflowNames.nodup_iff.mp ha.workflowNames, hworkflow.mp ha.workflows,
      hagentNames.nodup_iff.mp ha.agentNames, hagent.mp ha.agents, hversion.mp ha.version⟩
  · intro ha
    exact ⟨hentityNames.nodup_iff.mpr ha.entityNames, hentity.mpr ha.entities,
      hpageNames.nodup_iff.mpr ha.pageNames, hpage.mpr ha.pages,
      hworkflowNames.nodup_iff.mpr ha.workflowNames, hworkflow.mpr ha.workflows,
      hagentNames.nodup_iff.mpr ha.agentNames, hagent.mpr ha.agents, hversion.mpr ha.version⟩

end Accepted

theorem AppSpec.Reordered.valid_iff {x y : AppSpec} (h : x.Reordered y) :
    x.valid = true ↔ y.valid = true := by
  rw [AppSpec.valid_iff, AppSpec.valid_iff, h.conforms, h.accepted_iff]

end OpenRupiv.Spec
