import OpenRupiv.Spec.Facts
import OpenRupiv.Lib.Tabulate

/-!
# What validation accepts

The semantic pass scans its input once and keeps what it has seen in maps.  `Accepted` says what it
accepts without any order: names are distinct, and whatever is referred to is declared somewhere.
-/

namespace OpenRupiv.Spec

open Js Lib

variable {α : Type}

def FieldDef.DefaultFits (field : FieldDef) (value : Literal) : Prop :=
  match field.type, value with
  | .string, .str _ | .text, .str _ | .number, .num _ | .boolean, .bool _ => True
  | .enum, .str s => s ∈ field.values.getD []
  | _, _ => False

structure FieldDef.Accepted (names : List String) (field : FieldDef) : Prop where
  values : field.values.isSome = true ↔ field.type = .enum
  reference : field.type = .reference → ∃ target ∈ names, field.target = some target
  target : field.type ≠ .reference → field.target = none
  default : ∀ value, field.default = some value → field.DefaultFits value

structure EntityDef.Accepted (names : List String) (entity : EntityDef) : Prop where
  members : (entity.fields.map (·.name) ++ (entity.relations.getD []).map (·.name)).Nodup
  fields : ∀ field ∈ entity.fields, field.Accepted names
  relations : ∀ relation ∈ entity.relations.getD [], relation.to ∈ names

def PageDef.Accepted (entities : List EntityDef) (page : PageDef) : Prop :=
  ∃ entity ∈ entities, entity.name = page.entity ∧
    ∀ name ∈ page.fields.getD [], name ∈ entity.fields.map (·.name)

def FieldDef.ValueFits (field : FieldDef) (value : Literal) : Prop :=
  match field.type, value with
  | .enum, .str s => s ∈ field.values.getD []
  | .boolean, .bool _ | .number, .num _ | .string, .str _ | .text, .str _ | .date, .str _
  | .datetime, .str _ => True
  | _, _ => False

def FieldPredicate.Accepted (entity : EntityDef) (predicate : FieldPredicate) : Prop :=
  ∃ field ∈ entity.fields, field.name = predicate.field ∧ field.type ≠ .reference ∧
    if predicate.op = .set ∨ predicate.op = .notSet then predicate.value = none
    else ∃ value, predicate.value = some value ∧
      (predicate.op.isComparison = true → field.type.isOrdered = true) ∧ field.ValueFits value

structure TransitionDef.Accepted (roles : List String) (entity : EntityDef) (states : List String)
    (transition : TransitionDef) : Prop where
  «from» : transition.from ∈ states
  «to» : transition.to ∈ states
  guardRoles : ∀ role ∈ (transition.guard.bind (·.roles)).getD [], role ∈ roles
  require : ∀ predicate ∈ (transition.guard.bind (·.require)).getD [], predicate.Accepted entity
  approvalRoles : ∀ role ∈ (transition.approval.bind (·.roles)).getD [], role ∈ roles

/-- The checks of a workflow on its entity and its state field. -/
structure WorkflowDef.AcceptedOn (roles : List String) (entity : EntityDef) (field : FieldDef)
    (workflow : WorkflowDef) : Prop where
  type : field.type = .enum
  values : field.values.isSome = true
  initial : workflow.initial ∈ field.values.getD []
  transitionNames : (workflow.transitions.map (·.name)).Nodup
  transitions : ∀ transition ∈ workflow.transitions,
    transition.Accepted roles entity (field.values.getD [])

def WorkflowDef.Accepted (roles : List String) (entities : List EntityDef) (workflow : WorkflowDef) :
    Prop :=
  ∃ entity ∈ entities, entity.name = workflow.entity ∧
    ∃ field ∈ entity.fields, field.name = workflow.stateField ∧
      workflow.AcceptedOn roles entity field

/-- What is proposed is a transition with an approval rule. -/
def AgentProposalRef.Accepted (workflows : List WorkflowDef) (ref : AgentProposalRef) : Prop :=
  ∃ workflow ∈ workflows, workflow.name = ref.workflow ∧
    ∃ transition ∈ workflow.transitions, transition.name = ref.transition ∧
      transition.approval.isSome = true

structure AppSpec.Accepted (spec : AppSpec) : Prop where
  entityNames : (spec.entities.map (·.name)).Nodup
  entities : ∀ entity ∈ spec.entities, entity.Accepted (spec.entities.map (·.name))
  pageNames : ((spec.pages.getD []).map (·.name)).Nodup
  pages : ∀ page ∈ spec.pages.getD [], page.Accepted spec.entities
  workflowNames : ((spec.workflows.getD []).map (·.name)).Nodup
  workflows : ∀ workflow ∈ spec.workflows.getD [],
    workflow.Accepted (spec.app.roles.getD []) spec.entities
  agentNames : ((spec.agents.getD []).map (·.name)).Nodup
  agents : ∀ task ∈ spec.agents.getD [], ∀ ref ∈ task.proposes.getD [],
    ref.Accepted (spec.workflows.getD [])
  version : spec.agents.getD [] ≠ [] → spec.specVersion = .v0_2

/-- A loop that refuses repeated names, and otherwise looks at each item alone. -/
theorem entries_named_eq_nil_iff {β ε : Type} {items : List α} {errors : Nat → List α → α → List ε}
    {name : α → β} {p : α → Prop}
    (h : ∀ i before, ∀ x ∈ items, errors i before x = [] ↔ name x ∉ before.map name ∧ p x) :
    entries items errors = [] ↔ (items.map name).Nodup ∧ ∀ x ∈ items, p x := by
  rw [entries_eq_nil_iff]
  constructor
  · intro hall
    constructor
    · apply nodup_of_entries
      intro before x after hitems
      have hx : x ∈ items := by simp [hitems]
      exact ((h _ before x hx).mp (hall before x after hitems)).1
    · intro x hx
      obtain ⟨before, after, hitems⟩ := List.append_of_mem hx
      exact ((h _ before x hx).mp (hall before x after hitems)).2
  · rintro ⟨hnodup, hall⟩ before x after hitems
    have hx : x ∈ items := by simp [hitems]
    refine (h _ before x hx).mpr ⟨?_, hall x hx⟩
    rw [hitems, List.map_append, List.map_cons, List.nodup_append] at hnodup
    intro hmem
    exact hnodup.2.2 _ hmem _ List.mem_cons_self rfl

theorem entries_alone_eq_nil_iff {ε : Type} {items : List α} {errors : Nat → List α → α → List ε}
    {p : α → Prop} (h : ∀ i before, ∀ x ∈ items, errors i before x = [] ↔ p x) :
    entries items errors = [] ↔ ∀ x ∈ items, p x := by
  rw [entries_eq_nil_iff]
  constructor
  · intro hall x hx
    obtain ⟨before, after, hitems⟩ := List.append_of_mem hx
    exact (h _ before x hx).mp (hall before x after hitems)
  · intro hall before x after hitems
    have hx : x ∈ items := by simp [hitems]
    exact (h _ before x hx).mpr (hall x hx)

theorem EntityDef.fieldByName_eq_some_iff {entity : EntityDef}
    (hnd : (entity.fields.map (·.name)).Nodup) {n : String} {field : FieldDef} :
    entity.fieldByName n = some field ↔ field ∈ entity.fields ∧ field.name = n := by
  have hreverse : (entity.fields.reverse.map (·.name)).Nodup := by
    rw [List.map_reverse]
    exact List.nodup_reverse.mpr hnd
  rw [EntityDef.fieldByName, find_named_eq_some_iff hreverse, List.mem_reverse]

variable {spec : AppSpec}

theorem AppSpec.hasEntity_iff {name : String} :
    spec.hasEntity name = true ↔ name ∈ spec.entities.map (·.name) := by
  rw [hasEntity, entityByName, List.find?_isSome, List.mem_map]
  simp only [decide_eq_true_eq]

theorem AppSpec.checkRoles_eq_nil_iff {names : List String} {path : String} :
    spec.checkRoles names path = [] ↔ ∀ role ∈ names, role ∈ spec.app.roles.getD [] := by
  apply entries_alone_eq_nil_iff
  intro i before role _
  simp

theorem checkValues_eq_nil_iff {path : String} {field : FieldDef} :
    checkValues path field = [] ↔ (field.values.isSome = true ↔ field.type = .enum) := by
  by_cases henum : field.type = .enum
  · simp [checkValues, henum, Option.isSome_iff_ne_none]
  · simp [checkValues, henum]

theorem AppSpec.checkReference_eq_nil_iff {path : String} {field : FieldDef} :
    spec.checkReference path field = [] ↔
      (field.type = .reference → ∃ target ∈ spec.entities.map (·.name), field.target = some target) ∧
        (field.type ≠ .reference → field.target = none) := by
  by_cases href : field.type = .reference
  · cases htarget : field.target with
    | none => simp [checkReference, href, htarget]
    | some target =>
      simp only [checkReference, href, htarget, if_true, errorIf_eq_nil_iff, Bool.not_eq_false',
        hasEntity_iff, forall_const, Option.some.injEq, ne_eq, not_true, IsEmpty.forall_iff, and_true]
      constructor
      · intro hmem
        exact ⟨target, hmem, rfl⟩
      · rintro ⟨found, hmem, rfl⟩
        exact hmem
  · simp [checkReference, href]

theorem checkDefault_eq_nil_iff {path : String} {field : FieldDef} :
    checkDefault path field = [] ↔
      ∀ value, field.default = some value → field.DefaultFits value := by
  cases hdefault : field.default with
  | none => simp [checkDefault, hdefault]
  | some value =>
    simp only [checkDefault, hdefault, Option.some.injEq, forall_eq', FieldDef.DefaultFits]
    cases field.type <;> cases value <;> simp

theorem AppSpec.checkField_eq_nil_iff {entity : EntityDef} {path : String}
    {before : List FieldDef} {field : FieldDef} : spec.checkField entity path before field = [] ↔
      field.name ∉ before.map (·.name) ∧ field.Accepted (spec.entities.map (·.name)) := by
  simp only [checkField, List.append_eq_nil_iff, checkValues_eq_nil_iff, checkReference_eq_nil_iff,
    checkDefault_eq_nil_iff, ite_eq_right_iff, List.cons_ne_nil, imp_false]
  constructor
  · rintro ⟨⟨⟨hname, hvalues⟩, hreference, htarget⟩, hdefault⟩
    exact ⟨hname, hvalues, hreference, htarget, hdefault⟩
  · rintro ⟨hname, h⟩
    exact ⟨⟨⟨hname, h.values⟩, h.reference, h.target⟩, h.default⟩

theorem AppSpec.checkRelation_eq_nil_iff {entity : EntityDef} {path : String}
    {before : List RelationDef} {relation : RelationDef} :
    spec.checkRelation entity path before relation = [] ↔
      relation.name ∉ before.map (·.name) ∧ relation.name ∉ entity.fields.map (·.name) ∧
        relation.to ∈ spec.entities.map (·.name) := by
  simp only [checkRelation, List.append_eq_nil_iff, ite_eq_right_iff, List.cons_ne_nil, imp_false,
    List.mem_append, not_or, errorIf_eq_nil_iff, Bool.not_eq_false', hasEntity_iff]
  tauto

theorem AppSpec.checkEntity_eq_nil_iff {i : Nat} {entity : EntityDef} :
    spec.checkEntity i entity = [] ↔ entity.Accepted (spec.entities.map (·.name)) := by
  rw [checkEntity, List.append_eq_nil_iff,
    entries_named_eq_nil_iff fun _ _ _ _ => checkField_eq_nil_iff,
    entries_named_eq_nil_iff fun _ _ _ _ => checkRelation_eq_nil_iff]
  constructor
  · rintro ⟨⟨hfields, haccepted⟩, hrelations, hall⟩
    refine ⟨?_, haccepted, fun relation hr => (hall relation hr).2⟩
    rw [List.nodup_append]
    refine ⟨hfields, hrelations, ?_⟩
    intro name hname other hother heq
    obtain ⟨relation, hr, rfl⟩ := List.mem_map.mp hother
    exact (hall relation hr).1 (heq ▸ hname)
  · intro h
    obtain ⟨hfields, hrelations, hdisjoint⟩ := List.nodup_append.mp h.members
    refine ⟨⟨hfields, h.fields⟩, hrelations, ?_⟩
    intro relation hr
    refine ⟨?_, h.relations relation hr⟩
    intro hname
    exact hdisjoint _ hname _ (List.mem_map_of_mem hr) rfl

theorem AppSpec.entityByName_eq_some_iff (hnames : (spec.entities.map (·.name)).Nodup) {n : String}
    {entity : EntityDef} :
    spec.entityByName n = some entity ↔ entity ∈ spec.entities ∧ entity.name = n :=
  find_named_eq_some_iff hnames

theorem AppSpec.checkPage_eq_nil_iff (hnames : (spec.entities.map (·.name)).Nodup) {path : String}
    {before : List PageDef} {page : PageDef} : spec.checkPage path before page = [] ↔
      page.name ∉ before.map (·.name) ∧ page.Accepted spec.entities := by
  have haccepted : page.Accepted spec.entities ↔ ∃ entity,
      spec.entityByName page.entity = some entity ∧
        ∀ name ∈ page.fields.getD [], name ∈ entity.fields.map (·.name) := by
    simp only [PageDef.Accepted, entityByName_eq_some_iff hnames, and_assoc]
  rw [checkPage, List.append_eq_nil_iff, errorIf_eq_nil_iff, decide_eq_false_iff_not, haccepted]
  apply and_congr_right'
  cases hfound : spec.entityByName page.entity with
  | none => simp
  | some entity =>
    simp only [Option.some.injEq, exists_eq_left']
    apply entries_alone_eq_nil_iff
    intro _ _ name _
    simp

theorem checkPredicateValue_eq_nil_iff {path : String} {field : FieldDef} {value : Literal}
    (htype : field.type ≠ .reference) :
    checkPredicateValue path field value = [] ↔ field.ValueFits value := by
  cases hfield : field.type <;> cases value <;>
    simp_all [checkPredicateValue, FieldDef.ValueFits]

theorem checkPredicate_eq_nil_iff {entity : EntityDef}
    (hfields : (entity.fields.map (·.name)).Nodup) {path : String} {predicate : FieldPredicate} :
    checkPredicate entity path predicate = [] ↔ predicate.Accepted entity := by
  have haccepted : predicate.Accepted entity ↔ ∃ field,
      entity.fieldByName predicate.field = some field ∧ field.type ≠ .reference ∧
        if predicate.op = .set ∨ predicate.op = .notSet then predicate.value = none
        else ∃ value, predicate.value = some value ∧
          (predicate.op.isComparison = true → field.type.isOrdered = true) ∧
            field.ValueFits value := by
    simp only [FieldPredicate.Accepted, EntityDef.fieldByName_eq_some_iff hfields, and_assoc]
  rw [haccepted, checkPredicate]
  cases hfound : entity.fieldByName predicate.field with
  | none => simp
  | some field =>
    simp only [Option.some.injEq, exists_eq_left']
    by_cases htype : field.type = .reference
    · simp [htype]
    by_cases hset : predicate.op = .set ∨ predicate.op = .notSet
    · simp [htype, hset]
    cases hvalue : predicate.value with
    | none => simp [htype, hset]
    | some value =>
      simp only [htype, if_false, hset, ne_eq, not_false_eq_true, true_and, Option.some.injEq,
        exists_eq_left']
      by_cases hordered : predicate.op.isComparison = true ∧ ¬field.type.isOrdered = true
      · rw [if_pos hordered]
        simp [hordered.1, hordered.2]
      · rw [if_neg hordered, checkPredicateValue_eq_nil_iff htype]
        tauto

theorem AppSpec.checkTransition_eq_nil_iff {workflow : WorkflowDef} {entity : EntityDef}
    (hfields : (entity.fields.map (·.name)).Nodup) {states : List String} {path : String}
    {before : List TransitionDef} {transition : TransitionDef} :
    spec.checkTransition workflow entity states path before transition = [] ↔
      transition.name ∉ before.map (·.name) ∧
        transition.Accepted (spec.app.roles.getD []) entity states := by
  have hrequire : ∀ path, entries ((transition.guard.bind (·.require)).getD [])
      (fun k _ predicate => checkPredicate entity (item path k) predicate) = [] ↔
      ∀ predicate ∈ (transition.guard.bind (·.require)).getD [], predicate.Accepted entity := by
    intro path
    apply entries_alone_eq_nil_iff
    intro _ _ predicate _
    exact checkPredicate_eq_nil_iff hfields
  simp only [checkTransition, checkState, List.append_eq_nil_iff, errorIf_eq_nil_iff,
    decide_eq_false_iff_not, not_not, checkRoles_eq_nil_iff, hrequire]
  constructor
  · rintro ⟨⟨⟨⟨⟨hname, hfrom⟩, hto⟩, hguard⟩, hall⟩, happroval⟩
    exact ⟨hname, hfrom, hto, hguard, hall, happroval⟩
  · rintro ⟨hname, h⟩
    exact ⟨⟨⟨⟨⟨hname, h.from⟩, h.to⟩, h.guardRoles⟩, h.require⟩, h.approvalRoles⟩

theorem EntityDef.states_eq_some_iff {entity : EntityDef}
    (hfields : (entity.fields.map (·.name)).Nodup) {n : String} {states : List String} :
    entity.states n = some states ↔ ∃ field ∈ entity.fields, field.name = n ∧ field.type = .enum ∧
      field.values = some states := by
  simp only [EntityDef.states, Option.bind_eq_some_iff, EntityDef.fieldByName_eq_some_iff hfields]
  constructor
  · rintro ⟨field, ⟨hf, hname⟩, hvalues⟩
    split at hvalues
    · rename_i htype
      exact ⟨field, hf, hname, htype, hvalues⟩
    · exact absurd hvalues (by simp)
  · rintro ⟨field, hf, hname, htype, hvalues⟩
    exact ⟨field, ⟨hf, hname⟩, by rw [if_pos htype, hvalues]⟩

theorem AppSpec.checkWorkflow_eq_nil_iff (hnames : (spec.entities.map (·.name)).Nodup)
    (hfields : ∀ entity ∈ spec.entities, (entity.fields.map (·.name)).Nodup) {path : String}
    {before : List WorkflowDef} {workflow : WorkflowDef} :
    spec.checkWorkflow path before workflow = [] ↔ workflow.name ∉ before.map (·.name) ∧
      workflow.Accepted (spec.app.roles.getD []) spec.entities := by
  have haccepted : workflow.Accepted (spec.app.roles.getD []) spec.entities ↔ ∃ entity,
      spec.entityByName workflow.entity = some entity ∧ ∃ states,
        entity.states workflow.stateField = some states ∧ workflow.initial ∈ states ∧
          (workflow.transitions.map (·.name)).Nodup ∧ ∀ transition ∈ workflow.transitions,
            transition.Accepted (spec.app.roles.getD []) entity states := by
    simp only [WorkflowDef.Accepted, entityByName_eq_some_iff hnames, and_assoc]
    apply exists_congr
    intro entity
    apply and_congr_right
    intro he
    simp only [EntityDef.states_eq_some_iff (hfields entity he)]
    apply and_congr_right'
    constructor
    · rintro ⟨field, hf, hname, h⟩
      obtain ⟨states, hvalues⟩ := Option.isSome_iff_exists.mp h.values
      have hinitial := h.initial
      have htransitions := h.transitions
      simp only [hvalues, Option.getD_some] at hinitial htransitions
      exact ⟨states, ⟨field, hf, hname, h.type, hvalues⟩, hinitial, h.transitionNames, htransitions⟩
    · rintro ⟨states, ⟨field, hf, hname, htype, hvalues⟩, hinitial, htransitionNames, htransitions⟩
      refine ⟨field, hf, hname, htype, ?_, ?_, htransitionNames, ?_⟩
      · simp [hvalues]
      · simpa [hvalues] using hinitial
      · simpa [hvalues] using htransitions
  rw [checkWorkflow, List.append_eq_nil_iff, errorIf_eq_nil_iff, decide_eq_false_iff_not, haccepted]
  apply and_congr_right'
  cases hfound : spec.entityByName workflow.entity with
  | none => simp
  | some entity =>
    have hmem := (entityByName_eq_some_iff hnames).mp hfound
    simp only [Option.some.injEq, exists_eq_left']
    cases hstates : entity.states workflow.stateField with
    | none => simp
    | some states =>
      simp only [Option.some.injEq, exists_eq_left', List.append_eq_nil_iff, errorIf_eq_nil_iff,
        decide_eq_false_iff_not, not_not]
      apply and_congr_right'
      apply entries_named_eq_nil_iff
      intro _ _ transition _
      exact checkTransition_eq_nil_iff (hfields entity hmem.1)

theorem AppSpec.checkProposal_eq_nil_iff
    (hworkflows : ((spec.workflows.getD []).map (·.name)).Nodup)
    (htransitions : ∀ workflow ∈ spec.workflows.getD [], (workflow.transitions.map (·.name)).Nodup)
    {path : String} {task : AgentTaskDef} {ref : AgentProposalRef} :
    spec.checkProposal path task ref = [] ↔ ref.Accepted (spec.workflows.getD []) := by
  have haccepted : ref.Accepted (spec.workflows.getD []) ↔ ∃ workflow,
      ((spec.workflows.getD []).find? fun w => w.name = ref.workflow) = some workflow ∧
        ∃ transition, (workflow.transitions.find? fun t => t.name = ref.transition) =
          some transition ∧ transition.approval.isSome = true := by
    simp only [AgentProposalRef.Accepted, find_named_eq_some_iff hworkflows, and_assoc]
    apply exists_congr
    intro workflow
    apply and_congr_right
    intro hw
    simp only [find_named_eq_some_iff (htransitions workflow hw), and_assoc]
  rw [haccepted, checkProposal]
  cases hfound : (spec.workflows.getD []).find? fun w => w.name = ref.workflow with
  | none => simp
  | some workflow =>
    simp only [Option.some.injEq, exists_eq_left']
    cases htransition : workflow.transitions.find? fun t => t.name = ref.transition with
    | none => simp
    | some transition =>
      simp [Option.isSome_iff_ne_none]

theorem AppSpec.checkAgent_eq_nil_iff
    (hworkflows : ((spec.workflows.getD []).map (·.name)).Nodup)
    (htransitions : ∀ workflow ∈ spec.workflows.getD [], (workflow.transitions.map (·.name)).Nodup)
    {path : String} {before : List AgentTaskDef} {task : AgentTaskDef} :
    spec.checkAgent path before task = [] ↔ task.name ∉ before.map (·.name) ∧
      ∀ ref ∈ task.proposes.getD [], ref.Accepted (spec.workflows.getD []) := by
  rw [checkAgent, List.append_eq_nil_iff, errorIf_eq_nil_iff, decide_eq_false_iff_not]
  apply and_congr_right'
  apply entries_alone_eq_nil_iff
  intro _ _ ref _
  exact checkProposal_eq_nil_iff hworkflows htransitions

theorem AppSpec.semanticErrors_eq_nil_iff : spec.semanticErrors = [] ↔ spec.Accepted := by
  have hentityNames : entries spec.entities checkEntityName = [] ↔
      (spec.entities.map (·.name)).Nodup ∧ ∀ entity ∈ spec.entities, True := by
    apply entries_named_eq_nil_iff
    intro i before entity _
    simp [checkEntityName]
  have hentities : entries spec.entities (fun i _ entity => spec.checkEntity i entity) = [] ↔
      ∀ entity ∈ spec.entities, entity.Accepted (spec.entities.map (·.name)) := by
    apply entries_alone_eq_nil_iff
    intro i before entity _
    exact checkEntity_eq_nil_iff
  have hversion : spec.checkVersion = [] ↔ (spec.agents.getD [] ≠ [] → spec.specVersion = .v0_2) := by
    simp only [checkVersion, errorIf_eq_nil_iff, decide_eq_false_iff_not]
    tauto
  have hpages : (spec.entities.map (·.name)).Nodup →
      (entries (spec.pages.getD []) (fun i => spec.checkPage (item "/pages" i)) = [] ↔
        ((spec.pages.getD []).map (·.name)).Nodup ∧
          ∀ page ∈ spec.pages.getD [], page.Accepted spec.entities) := by
    intro hnames
    apply entries_named_eq_nil_iff
    intro i before page _
    exact checkPage_eq_nil_iff hnames
  have hworkflows : (spec.entities.map (·.name)).Nodup →
      (∀ entity ∈ spec.entities, entity.Accepted (spec.entities.map (·.name))) →
      (entries (spec.workflows.getD []) (fun i => spec.checkWorkflow (item "/workflows" i)) = [] ↔
        ((spec.workflows.getD []).map (·.name)).Nodup ∧ ∀ workflow ∈ spec.workflows.getD [],
          workflow.Accepted (spec.app.roles.getD []) spec.entities) := by
    intro hnames haccepted
    apply entries_named_eq_nil_iff
    intro i before workflow _
    apply checkWorkflow_eq_nil_iff hnames
    intro entity he
    exact (List.nodup_append.mp (haccepted entity he).members).1
  have hagents : ((spec.workflows.getD []).map (·.name)).Nodup →
      (∀ workflow ∈ spec.workflows.getD [],
        workflow.Accepted (spec.app.roles.getD []) spec.entities) →
      (entries (spec.agents.getD []) (fun i => spec.checkAgent (item "/agents" i)) = [] ↔
        ((spec.agents.getD []).map (·.name)).Nodup ∧ ∀ task ∈ spec.agents.getD [],
          ∀ ref ∈ task.proposes.getD [], ref.Accepted (spec.workflows.getD [])) := by
    intro hnames haccepted
    apply entries_named_eq_nil_iff
    intro i before task _
    apply checkAgent_eq_nil_iff hnames
    intro workflow hw
    obtain ⟨_, -, -, _, -, -, h⟩ := haccepted workflow hw
    exact h.transitionNames
  simp only [semanticErrors, List.append_eq_nil_iff, hentityNames, hentities, hversion]
  constructor
  · rintro ⟨⟨⟨⟨⟨⟨hnames, -⟩, hall⟩, hpage⟩, hworkflow⟩, hagent⟩, hlast⟩
    rw [hpages hnames] at hpage
    rw [hworkflows hnames hall] at hworkflow
    rw [hagents hworkflow.1 hworkflow.2] at hagent
    exact ⟨hnames, hall, hpage.1, hpage.2, hworkflow.1, hworkflow.2, hagent.1, hagent.2, hlast⟩
  · intro h
    rw [hpages h.entityNames, hworkflows h.entityNames h.entities, hagents h.workflowNames h.workflows]
    exact ⟨⟨⟨⟨⟨⟨h.entityNames, fun _ _ => trivial⟩, h.entities⟩, h.pageNames, h.pages⟩,
      h.workflowNames, h.workflows⟩, h.agentNames, h.agents⟩, h.version⟩

/-- `validateSpec` accepts a spec that conforms to the schema and has no semantic fault. -/
theorem AppSpec.valid_iff : spec.valid = true ↔ spec.conforms = true ∧ spec.Accepted := by
  rw [valid, Bool.and_eq_true, decide_eq_true_eq, semanticErrors_eq_nil_iff]

end OpenRupiv.Spec
