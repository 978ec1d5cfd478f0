import OpenRupiv.Spec.Validate

/-!
# What a valid spec has

The facts that the later stages rely on, read off the schema and the semantic pass.
-/

namespace OpenRupiv.Spec

open Js

theorem mem_of_isKebabName {s : String} (h : isKebabName s = true) {c : Char} (hc : c ∈ s.toList) :
    c = '-' ∨ isLowerOrDigit c = true := by
  simp only [isKebabName, Bool.and_eq_true, List.all_eq_true, decide_eq_true_eq] at h
  exact (mem_splitOn hc).imp_right fun ⟨group, hgroup, hin⟩ => (h.2 group hgroup).2 c hin

theorem mem_of_isValueName {s : String} (h : isValueName s = true) {c : Char}
    (hc : c ∈ s.toList) : c = '_' ∨ isLowerOrDigit c = true := by
  unfold isValueName at h
  split at h
  · exact absurd h (by simp)
  · rename_i first rest hlist
    rw [hlist] at hc
    simp only [Bool.and_eq_true, List.all_eq_true, Bool.or_eq_true, beq_iff_eq] at h
    rcases List.mem_cons.mp hc with rfl | hc
    · exact .inr (by simp [isLowerOrDigit, h.1])
    · exact (h.2 c hc).symm

namespace AppSpec

variable {spec : AppSpec}

theorem conforms_of_valid (h : spec.valid = true) : spec.conforms = true := by
  simp only [valid, Bool.and_eq_true] at h
  exact h.1

private theorem sections_of_valid (h : spec.valid = true) :
    entries spec.entities checkEntityName = [] ∧
      entries spec.entities (fun i _ entity => spec.checkEntity i entity) = [] ∧
      entries (spec.pages.getD []) (fun i => spec.checkPage (item "/pages" i)) = [] ∧
      entries (spec.workflows.getD []) (fun i => spec.checkWorkflow (item "/workflows" i)) = [] ∧
      entries (spec.agents.getD []) (fun i => spec.checkAgent (item "/agents" i)) = [] := by
  simp only [valid, Bool.and_eq_true, decide_eq_true_eq, semanticErrors, List.append_eq_nil_iff] at h
  obtain ⟨-, ⟨⟨⟨⟨hnames, hentities⟩, hpages⟩, hworkflows⟩, hagents⟩, -⟩ := h
  exact ⟨hnames, hentities, hpages, hworkflows, hagents⟩

theorem entity_conforms (h : spec.valid = true) {entity : EntityDef} (he : entity ∈ spec.entities) :
    entity.conforms = true := by
  have hconforms := conforms_of_valid h
  simp only [AppSpec.conforms, Bool.and_eq_true, List.all_eq_true] at hconforms
  exact hconforms.1.1.1.1.1.2 entity he

theorem isEntityName_of_mem (h : spec.valid = true) {entity : EntityDef}
    (he : entity ∈ spec.entities) : isEntityName entity.name = true := by
  have hconforms := entity_conforms h he
  simp only [EntityDef.conforms, Bool.and_eq_true] at hconforms
  exact hconforms.1.1.1

theorem field_conforms (h : spec.valid = true) {entity : EntityDef} (he : entity ∈ spec.entities)
    {field : FieldDef} (hf : field ∈ entity.fields) : field.conforms = true := by
  have hconforms := entity_conforms h he
  simp only [EntityDef.conforms, Bool.and_eq_true, List.all_eq_true] at hconforms
  exact hconforms.1.2 field hf

theorem isMemberName_of_mem (h : spec.valid = true) {entity : EntityDef}
    (he : entity ∈ spec.entities) {field : FieldDef} (hf : field ∈ entity.fields) :
    isMemberName field.name = true := by
  have hconforms := field_conforms h he hf
  simp only [FieldDef.conforms, Bool.and_eq_true] at hconforms
  exact hconforms.1.1.1

theorem nodup_entityNames (h : spec.valid = true) : (spec.entities.map (·.name)).Nodup := by
  have hnames := entries_eq_nil_iff.mp (sections_of_valid h).1
  apply nodup_of_entries
  intro before entity after hitems
  have hnil := hnames before entity after hitems
  simpa [checkEntityName] using hnil

private theorem field_checks (h : spec.valid = true) {entity : EntityDef}
    (he : entity ∈ spec.entities) {before after : List FieldDef} {field : FieldDef}
    (hfields : entity.fields = before ++ field :: after) :
    ∃ path, spec.checkField entity path before field = [] := by
  obtain ⟨pre, post, hentities⟩ := List.append_of_mem he
  have hentity := entries_eq_nil_iff.mp (sections_of_valid h).2.1 pre entity post hentities
  rw [checkEntity, List.append_eq_nil_iff] at hentity
  exact ⟨_, entries_eq_nil_iff.mp hentity.1 before field after hfields⟩

theorem nodup_fieldNames (h : spec.valid = true) {entity : EntityDef} (he : entity ∈ spec.entities) :
    (entity.fields.map (·.name)).Nodup := by
  apply nodup_of_entries
  intro before field after hfields hmem
  obtain ⟨path, hnil⟩ := field_checks h he hfields
  simp [checkField, hmem] at hnil

theorem fieldByName_eq (h : spec.valid = true) {entity : EntityDef} (he : entity ∈ spec.entities)
    {field : FieldDef} (hf : field ∈ entity.fields) : entity.fieldByName field.name = some field := by
  rw [EntityDef.fieldByName]
  have hsome : (entity.fields.reverse.find? fun f => f.name = field.name).isSome = true :=
    List.find?_isSome.mpr ⟨field, List.mem_reverse.mpr hf, by simp⟩
  obtain ⟨found, hfound⟩ := Option.isSome_iff_exists.mp hsome
  have hname : found.name = field.name := by simpa using List.find?_some hfound
  have hmem := List.mem_reverse.mp (List.mem_of_find?_eq_some hfound)
  rw [hfound, List.inj_on_of_nodup_map (nodup_fieldNames h he) hmem hf hname]

theorem values_of_enum (h : spec.valid = true) {entity : EntityDef} (he : entity ∈ spec.entities)
    {field : FieldDef} (hf : field ∈ entity.fields) (htype : field.type = .enum) :
    ∃ values, field.values = some values ∧ values ≠ [] := by
  obtain ⟨before, after, hfields⟩ := List.append_of_mem hf
  obtain ⟨path, hnil⟩ := field_checks h he hfields
  have hconforms := field_conforms h he hf
  simp only [checkField, List.append_eq_nil_iff, checkValues, htype, if_true,
    errorIf_eq_nil_iff] at hnil
  obtain ⟨values, hvalues⟩ := Option.isNone_eq_false_iff.mp hnil.1.1.2 |> Option.isSome_iff_exists.mp
  refine ⟨values, hvalues, ?_⟩
  simp only [FieldDef.conforms, hvalues, Option.all_some, distinctNames, Bool.and_eq_true,
    decide_eq_true_eq] at hconforms
  exact hconforms.1.1.2.1.1

theorem default_of_enum (h : spec.valid = true) {entity : EntityDef} (he : entity ∈ spec.entities)
    {field : FieldDef} (hf : field ∈ entity.fields) (htype : field.type = .enum) {value : Literal}
    (hdefault : field.default = some value) : ∃ s ∈ field.values.getD [], value = .str s := by
  obtain ⟨before, after, hfields⟩ := List.append_of_mem hf
  obtain ⟨path, hnil⟩ := field_checks h he hfields
  rw [checkField, List.append_eq_nil_iff] at hnil
  have hvalue := hnil.2
  cases value with
  | str s =>
    refine ⟨s, ?_, rfl⟩
    simpa [checkDefault, hdefault, htype] using hvalue
  | num n => simp [checkDefault, hdefault, htype] at hvalue
  | bool b => simp [checkDefault, hdefault, htype] at hvalue

theorem target_of_reference (h : spec.valid = true) {entity : EntityDef}
    (he : entity ∈ spec.entities) {field : FieldDef} (hf : field ∈ entity.fields)
    (htype : field.type = .reference) :
    ∃ target, field.entity = some target ∧ target ∈ spec.entities.map (·.name) := by
  obtain ⟨before, after, hfields⟩ := List.append_of_mem hf
  obtain ⟨path, hnil⟩ := field_checks h he hfields
  simp only [checkField, List.append_eq_nil_iff, checkReference, htype, if_true] at hnil
  have href := hnil.1.2
  split at href
  · exact absurd href (by simp)
  · rename_i target htarget
    refine ⟨target, (Option.filter_eq_some_iff.mp htarget).1, ?_⟩
    simp only [errorIf_eq_nil_iff, Bool.not_eq_false', hasEntity, entityByName] at href
    obtain ⟨found, hmem, hname⟩ := List.find?_isSome.mp href
    exact List.mem_map.mpr ⟨found, hmem, by simpa using hname⟩

theorem values_eq_none (h : spec.valid = true) {entity : EntityDef} (he : entity ∈ spec.entities)
    {field : FieldDef} (hf : field ∈ entity.fields) (htype : field.type ≠ .enum) :
    field.values = none := by
  obtain ⟨before, after, hfields⟩ := List.append_of_mem hf
  obtain ⟨path, hnil⟩ := field_checks h he hfields
  simp only [checkField, List.append_eq_nil_iff, checkValues, htype, if_false,
    errorIf_eq_nil_iff] at hnil
  simpa using hnil.1.1.2

theorem target_eq_none (h : spec.valid = true) {entity : EntityDef} (he : entity ∈ spec.entities)
    {field : FieldDef} (hf : field ∈ entity.fields) (htype : field.type ≠ .reference) :
    field.entity = none := by
  obtain ⟨before, after, hfields⟩ := List.append_of_mem hf
  obtain ⟨path, hnil⟩ := field_checks h he hfields
  simp only [checkField, List.append_eq_nil_iff, checkReference, htype, if_false,
    errorIf_eq_nil_iff, FieldDef.target] at hnil
  have htarget := hnil.1.2
  have hconforms := field_conforms h he hf
  simp only [FieldDef.conforms, Bool.and_eq_true] at hconforms
  have hname := hconforms.1.2
  cases hentity : field.entity with
  | none => rfl
  | some target =>
    rw [hentity, Option.all_some] at hname
    have hempty : target ≠ "" := by
      rintro rfl
      exact absurd hname (by decide)
    simp [hentity, hempty] at htarget

theorem nodup_relationNames (h : spec.valid = true) {entity : EntityDef}
    (he : entity ∈ spec.entities) : ((entity.relations.getD []).map (·.name)).Nodup := by
  obtain ⟨pre, post, hentities⟩ := List.append_of_mem he
  have hentity := entries_eq_nil_iff.mp (sections_of_valid h).2.1 pre entity post hentities
  rw [checkEntity, List.append_eq_nil_iff] at hentity
  apply nodup_of_entries
  intro before relation after hrelations hmem
  have hnil := entries_eq_nil_iff.mp hentity.2 before relation after hrelations
  simp [checkRelation, hmem] at hnil

theorem target_of_relation (h : spec.valid = true) {entity : EntityDef}
    (he : entity ∈ spec.entities) {relation : RelationDef} (hr : relation ∈ entity.relations.getD []) :
    relation.to ∈ spec.entities.map (·.name) := by
  obtain ⟨pre, post, hentities⟩ := List.append_of_mem he
  have hentity := entries_eq_nil_iff.mp (sections_of_valid h).2.1 pre entity post hentities
  rw [checkEntity, List.append_eq_nil_iff] at hentity
  obtain ⟨before, after, hrelations⟩ := List.append_of_mem hr
  have hnil := entries_eq_nil_iff.mp hentity.2 before relation after hrelations
  simp only [checkRelation, List.append_eq_nil_iff, errorIf_eq_nil_iff, Bool.not_eq_false', hasEntity,
    entityByName] at hnil
  obtain ⟨found, hmem, hname⟩ := List.find?_isSome.mp hnil.2
  exact List.mem_map.mpr ⟨found, hmem, by simpa using hname⟩

private theorem page_checks (h : spec.valid = true) {before after : List PageDef} {page : PageDef}
    (hpages : spec.pages.getD [] = before ++ page :: after) :
    ∃ path, spec.checkPage path before page = [] :=
  ⟨_, entries_eq_nil_iff.mp (sections_of_valid h).2.2.1 before page after hpages⟩

theorem nodup_pageNames (h : spec.valid = true) : ((spec.pages.getD []).map (·.name)).Nodup := by
  apply nodup_of_entries
  intro before page after hpages hmem
  obtain ⟨path, hnil⟩ := page_checks h hpages
  rw [checkPage, List.append_eq_nil_iff] at hnil
  simp [hmem] at hnil

theorem isKebabName_of_page (h : spec.valid = true) {page : PageDef}
    (hp : page ∈ spec.pages.getD []) : isKebabName page.name = true := by
  have hconforms := conforms_of_valid h
  simp only [AppSpec.conforms, Bool.and_eq_true, List.all_eq_true] at hconforms
  have hpage := hconforms.1.1.1.1.2 page hp
  simp only [PageDef.conforms, Bool.and_eq_true] at hpage
  exact hpage.1.1

theorem entity_of_page (h : spec.valid = true) {page : PageDef} (hp : page ∈ spec.pages.getD []) :
    ∃ entity ∈ spec.entities, spec.entityByName page.entity = some entity := by
  obtain ⟨before, after, hpages⟩ := List.append_of_mem hp
  obtain ⟨path, hnil⟩ := page_checks h hpages
  rw [checkPage, List.append_eq_nil_iff] at hnil
  cases hfound : spec.entityByName page.entity with
  | none => simp [hfound] at hnil
  | some entity => exact ⟨entity, List.mem_of_find?_eq_some hfound, rfl⟩

private theorem workflow_checks (h : spec.valid = true) {before after : List WorkflowDef}
    {workflow : WorkflowDef} (hworkflows : spec.workflows.getD [] = before ++ workflow :: after) :
    ∃ path, spec.checkWorkflow path before workflow = [] :=
  ⟨_, entries_eq_nil_iff.mp (sections_of_valid h).2.2.2.1 before workflow after hworkflows⟩

theorem nodup_workflowNames (h : spec.valid = true) :
    ((spec.workflows.getD []).map (·.name)).Nodup := by
  apply nodup_of_entries
  intro before workflow after hworkflows hmem
  obtain ⟨path, hnil⟩ := workflow_checks h hworkflows
  rw [checkWorkflow, List.append_eq_nil_iff] at hnil
  simp [hmem] at hnil

theorem workflow_conforms (h : spec.valid = true) {workflow : WorkflowDef}
    (hw : workflow ∈ spec.workflows.getD []) : workflow.conforms = true := by
  have hconforms := conforms_of_valid h
  simp only [AppSpec.conforms, Bool.and_eq_true, List.all_eq_true] at hconforms
  exact hconforms.1.1.1.2 workflow hw

theorem predicate_conforms (h : spec.valid = true) {workflow : WorkflowDef}
    (hw : workflow ∈ spec.workflows.getD []) {transition : TransitionDef}
    (ht : transition ∈ workflow.transitions) {predicate : FieldPredicate}
    (hp : predicate ∈ (transition.guard.bind (·.require)).getD []) :
    predicate.conforms = true := by
  have hworkflow := workflow_conforms h hw
  simp only [WorkflowDef.conforms, Bool.and_eq_true, List.all_eq_true] at hworkflow
  have htransition := hworkflow.2 transition ht
  simp only [TransitionDef.conforms, Bool.and_eq_true] at htransition
  have hguard := htransition.1.2
  cases hg : transition.guard with
  | none => simp [hg] at hp
  | some guard =>
    rw [hg, Option.all_some, TransitionGuard.conforms, Bool.and_eq_true] at hguard
    have hrequire := hguard.2
    cases hr : guard.require with
    | none => simp [hg, hr] at hp
    | some predicates =>
      simp only [hr, Option.all_some, Bool.and_eq_true, List.all_eq_true] at hrequire
      simp only [hg, Option.bind_some, hr, Option.getD_some] at hp
      exact hrequire.2 predicate hp

theorem isKebabName_of_transition (h : spec.valid = true) {workflow : WorkflowDef}
    (hw : workflow ∈ spec.workflows.getD []) {transition : TransitionDef}
    (ht : transition ∈ workflow.transitions) : isKebabName transition.name = true := by
  have hworkflow := workflow_conforms h hw
  simp only [WorkflowDef.conforms, Bool.and_eq_true, List.all_eq_true] at hworkflow
  have htransition := hworkflow.2 transition ht
  simp only [TransitionDef.conforms, Bool.and_eq_true] at htransition
  exact htransition.1.1.1.1

/-- The checks of a workflow passed on this entity, with these values of its state field. -/
structure BoundTo (spec : AppSpec) (workflow : WorkflowDef) (entity : EntityDef)
    (states : List String) : Prop where
  mem : entity ∈ spec.entities
  found : spec.entityByName workflow.entity = some entity
  values : entity.states workflow.stateField = some states
  initial : workflow.initial ∈ states
  checked : ∀ before transition after, workflow.transitions = before ++ transition :: after →
    ∃ path, spec.checkTransition workflow entity states path before transition = []

theorem boundTo_of_mem (h : spec.valid = true) {workflow : WorkflowDef}
    (hw : workflow ∈ spec.workflows.getD []) :
    ∃ entity states, spec.BoundTo workflow entity states := by
  obtain ⟨before, after, hworkflows⟩ := List.append_of_mem hw
  obtain ⟨path, hnil⟩ := workflow_checks h hworkflows
  rw [checkWorkflow, List.append_eq_nil_iff] at hnil
  have hbound := hnil.2
  cases hfound : spec.entityByName workflow.entity with
  | none => simp [hfound] at hbound
  | some entity =>
    cases hvalues : entity.states workflow.stateField with
    | none => simp [hfound, hvalues] at hbound
    | some states =>
      simp only [hfound, hvalues, List.append_eq_nil_iff, errorIf_eq_nil_iff, decide_eq_false_iff_not,
        not_not] at hbound
      refine ⟨entity, states, List.mem_of_find?_eq_some hfound, hfound, hvalues, hbound.1, ?_⟩
      intro before transition after htransitions
      exact ⟨_, entries_eq_nil_iff.mp hbound.2 before transition after htransitions⟩

namespace BoundTo

variable {workflow : WorkflowDef} {entity : EntityDef} {states : List String}

theorem name_eq (h : spec.BoundTo workflow entity states) : entity.name = workflow.entity := by
  have hname := List.find?_some h.found
  simpa using hname

theorem stateField (h : spec.BoundTo workflow entity states) :
    ∃ field ∈ entity.fields, field.name = workflow.stateField ∧ field.type = .enum ∧
      field.values = some states := by
  obtain ⟨field, hfield, hvalues⟩ := Option.bind_eq_some_iff.mp h.values
  have hname := List.find?_some hfield
  refine ⟨field, List.mem_reverse.mp (List.mem_of_find?_eq_some hfield), by simpa using hname, ?_⟩
  split at hvalues
  · rename_i htype
    exact ⟨htype, hvalues⟩
  · exact absurd hvalues (by simp)

theorem nodup_transitionNames (h : spec.BoundTo workflow entity states) :
    (workflow.transitions.map (·.name)).Nodup := by
  apply nodup_of_entries
  intro before transition after htransitions hmem
  obtain ⟨path, hnil⟩ := h.checked before transition after htransitions
  simp [checkTransition, hmem] at hnil

variable {transition : TransitionDef}

theorem states_mem (h : spec.BoundTo workflow entity states)
    (ht : transition ∈ workflow.transitions) :
    transition.from ∈ states ∧ transition.to ∈ states := by
  obtain ⟨before, after, htransitions⟩ := List.append_of_mem ht
  obtain ⟨path, hnil⟩ := h.checked before transition after htransitions
  simp only [checkTransition, checkState, List.append_eq_nil_iff, errorIf_eq_nil_iff,
    decide_eq_false_iff_not, not_not] at hnil
  exact ⟨hnil.1.1.1.1.2, hnil.1.1.1.2⟩

/-- The predicates of a guard are about fields of the entity, and ordered operators about numbers
and dates. -/
theorem predicate (h : spec.BoundTo workflow entity states) (ht : transition ∈ workflow.transitions)
    {predicate : FieldPredicate}
    (hp : predicate ∈ (transition.guard.bind (·.require)).getD []) :
    ∃ field, entity.fieldByName predicate.field = some field ∧ field.type ≠ .reference ∧
      (predicate.op.isComparison = true → field.type.isOrdered = true) := by
  obtain ⟨before, after, htransitions⟩ := List.append_of_mem ht
  obtain ⟨path, hnil⟩ := h.checked before transition after htransitions
  simp only [checkTransition, List.append_eq_nil_iff] at hnil
  obtain ⟨pre, post, hrequire⟩ := List.append_of_mem hp
  have hpredicate := entries_eq_nil_iff.mp hnil.1.2 pre predicate post hrequire
  unfold checkPredicate at hpredicate
  split at hpredicate
  · exact absurd hpredicate (by simp)
  rename_i field hfield
  refine ⟨field, hfield, ?_⟩
  split at hpredicate
  · exact absurd hpredicate (by simp)
  rename_i hreference
  refine ⟨hreference, ?_⟩
  intro hcomparison
  split at hpredicate
  · rename_i hset
    rcases hset with hset | hset <;> simp [hset, PredicateOp.isComparison] at hcomparison
  split at hpredicate
  · exact absurd hpredicate (by simp)
  split at hpredicate
  · exact absurd hpredicate (by simp)
  · rename_i hordered
    by_contra hnot
    exact hordered ⟨hcomparison, hnot⟩

end BoundTo

end AppSpec

end OpenRupiv.Spec
