import OpenRupiv.Generator.Compare
import OpenRupiv.Spec.Reordered

/-!
# The normal form of a spec

What the comparison of specs promises to compare, without order: sets, and tables by name.  Two specs
are reported as equivalent exactly when they have the same normal form.
-/

namespace OpenRupiv.Generator

open Lib Spec

variable {α : Type}

structure FieldForm where
  type : FieldType
  values : Set String
  target : Option String

structure EntityForm where
  fields : String → Option FieldForm
  /-- The targets of the relations. -/
  relations : String → Option String

structure PageForm where
  type : PageType
  entity : String

structure ApprovalForm where
  count : Nat
  roles : Set String

structure TransitionForm where
  «from» : String
  «to» : String
  guardRoles : Set String
  guardPredicates : Set FieldPredicate
  approval : Option ApprovalForm

structure WorkflowForm where
  entity : String
  stateField : String
  initial : String
  transitions : String → Option TransitionForm

structure SpecForm where
  roles : Set String
  entities : String → Option EntityForm
  pages : String → Option PageForm
  workflows : String → Option WorkflowForm

def setOf (xs : List α) : Set α := fun x => x ∈ xs

def fieldForm (field : FieldDef) : FieldForm where
  type := field.type
  values := setOf (field.values.getD [])
  target := field.entity

def entityForm (entity : EntityDef) : EntityForm where
  fields := tabulate FieldDef.name fieldForm entity.fields
  relations := tabulate RelationDef.name RelationDef.to (entity.relations.getD [])

def pageForm (page : PageDef) : PageForm where
  type := page.type
  entity := page.entity

def approvalForm (approval : ApprovalRule) : ApprovalForm where
  count := approval.count
  roles := setOf (approval.roles.getD [])

/-- The value of a predicate is a JavaScript value: `-0` is `0`. -/
def transitionForm (transition : TransitionDef) : TransitionForm where
  «from» := transition.from
  «to» := transition.to
  guardRoles := setOf (guardRoles transition)
  guardPredicates := setOf ((guardRequire transition).map unsignedPredicate)
  approval := transition.approval.map approvalForm

def workflowForm (workflow : WorkflowDef) : WorkflowForm where
  entity := workflow.entity
  stateField := workflow.stateField
  initial := workflow.initial
  transitions := tabulate TransitionDef.name transitionForm workflow.transitions

def specForm (spec : AppSpec) : SpecForm where
  roles := setOf (spec.app.roles.getD [])
  entities := tabulate EntityDef.name entityForm spec.entities
  pages := tabulate PageDef.name pageForm (spec.pages.getD [])
  workflows := tabulate WorkflowDef.name workflowForm (spec.workflows.getD [])

theorem setOf_eq_iff {xs ys : List α} : setOf xs = setOf ys ↔ SameSet xs ys := by
  constructor
  · intro h x
    exact iff_of_eq (congrFun h x)
  · intro h
    funext x
    exact propext (h x)

theorem agreeNamed_iff {β : Type} (name : α → String) (form : α → β) {agree : α → α → Prop}
    {xs ys : List α} (hxs : (xs.map name).Nodup) (hys : (ys.map name).Nodup)
    (h : ∀ x ∈ xs, ∀ y ∈ ys, agree x y ↔ form x = form y) :
    AgreeNamed name agree xs ys ↔ tabulate name form xs = tabulate name form ys := by
  rw [tabulate_eq_iff hxs hys, AgreeNamed]
  constructor
  · intro hagree
    constructor
    · intro x hx
      obtain ⟨y, hy, hname, hxy⟩ := hagree.1 x hx
      exact ⟨y, hy, hname, (h x hx y hy).mp hxy⟩
    · intro y hy
      obtain ⟨x, hx, hname, hxy⟩ := hagree.2 y hy
      exact ⟨x, hx, hname, (h x hx y hy).mp hxy⟩
  · intro hforms
    constructor
    · intro x hx
      obtain ⟨y, hy, hname, hxy⟩ := hforms.1 x hx
      exact ⟨y, hy, hname, (h x hx y hy).mpr hxy⟩
    · intro y hy
      obtain ⟨x, hx, hname, hxy⟩ := hforms.2 y hy
      exact ⟨x, hx, hname, (h x hx y hy).mpr hxy⟩

theorem agreeField_iff {x y : FieldDef} : AgreeField x y ↔ fieldForm x = fieldForm y := by
  simp only [fieldForm, FieldForm.mk.injEq, setOf_eq_iff]
  exact ⟨fun h => ⟨h.type, h.values, h.entity⟩, fun h => ⟨h.1, h.2.1, h.2.2⟩⟩

theorem agreePage_iff {x y : PageDef} : AgreePage x y ↔ pageForm x = pageForm y := by
  simp only [pageForm, PageForm.mk.injEq]
  exact ⟨fun h => ⟨h.type, h.entity⟩, fun h => ⟨h.1, h.2⟩⟩

theorem agreeApproval_iff {x y : Option ApprovalRule} :
    AgreeApproval x y ↔ x.map approvalForm = y.map approvalForm := by
  cases x with
  | none =>
    cases y with
    | none => exact ⟨fun _ => rfl, fun _ => .none⟩
    | some b => exact ⟨nofun, nofun⟩
  | some a =>
    cases y with
    | none => exact ⟨nofun, nofun⟩
    | some b =>
      simp only [Option.map_some, Option.some.injEq, approvalForm, ApprovalForm.mk.injEq,
        setOf_eq_iff]
      constructor
      · intro h
        cases h with
        | some hcount hroles => exact ⟨hcount, hroles⟩
      · intro h
        exact .some h.1 h.2

theorem agreeTransition_iff {x y : TransitionDef} :
    AgreeTransition x y ↔ transitionForm x = transitionForm y := by
  simp only [transitionForm, TransitionForm.mk.injEq, setOf_eq_iff, ← agreeApproval_iff]
  exact ⟨fun h => ⟨h.from, h.to, h.roles, h.require, h.approval⟩,
    fun h => ⟨h.1, h.2.1, h.2.2.1, h.2.2.2.1, h.2.2.2.2⟩⟩

section Valid

variable {x y : AppSpec} (hx : x.valid = true) (hy : y.valid = true)

include hx hy

theorem agreeEntity_iff {e f : EntityDef} (he : e ∈ x.entities) (hf : f ∈ y.entities) :
    AgreeEntity e f ↔ entityForm e = entityForm f := by
  rw [entityForm, entityForm, EntityForm.mk.injEq,
    ← agreeNamed_iff FieldDef.name fieldForm (AppSpec.nodup_fieldNames hx he)
      (AppSpec.nodup_fieldNames hy hf) fun _ _ _ _ => agreeField_iff,
    ← agreeNamed_iff RelationDef.name RelationDef.to (AppSpec.nodup_relationNames hx he)
      (AppSpec.nodup_relationNames hy hf) fun _ _ _ _ => Iff.rfl]
  exact ⟨fun h => ⟨h.fields, h.relations⟩, fun h => ⟨h.1, h.2⟩⟩

theorem agreeWorkflow_iff {w v : WorkflowDef} (hw : w ∈ x.workflows.getD [])
    (hv : v ∈ y.workflows.getD []) : AgreeWorkflow w v ↔ workflowForm w = workflowForm v := by
  obtain ⟨_, _, hwbound⟩ := AppSpec.boundTo_of_mem hx hw
  obtain ⟨_, _, hvbound⟩ := AppSpec.boundTo_of_mem hy hv
  rw [workflowForm, workflowForm, WorkflowForm.mk.injEq,
    ← agreeNamed_iff TransitionDef.name transitionForm hwbound.nodup_transitionNames
      hvbound.nodup_transitionNames fun _ _ _ _ => agreeTransition_iff]
  exact ⟨fun h => ⟨h.entity, h.stateField, h.initial, h.transitions⟩,
    fun h => ⟨h.1, h.2.1, h.2.2.1, h.2.2.2⟩⟩

theorem agreeCompared_iff : AgreeCompared x y ↔ specForm x = specForm y := by
  rw [specForm, specForm, SpecForm.mk.injEq, setOf_eq_iff,
    ← agreeNamed_iff EntityDef.name entityForm (AppSpec.nodup_entityNames hx)
      (AppSpec.nodup_entityNames hy) fun _ he _ hf => agreeEntity_iff hx hy he hf,
    ← agreeNamed_iff PageDef.name pageForm (AppSpec.nodup_pageNames hx)
      (AppSpec.nodup_pageNames hy) fun _ _ _ _ => agreePage_iff,
    ← agreeNamed_iff WorkflowDef.name workflowForm (AppSpec.nodup_workflowNames hx)
      (AppSpec.nodup_workflowNames hy) fun _ hw _ hv => agreeWorkflow_iff hx hy hw hv]
  exact ⟨fun h => ⟨h.roles, h.entities, h.pages, h.workflows⟩,
    fun h => ⟨h.1, h.2.1, h.2.2.1, h.2.2.2⟩⟩

end Valid

theorem setOf_perm {xs ys : List α} (h : xs.Perm ys) : setOf xs = setOf ys :=
  setOf_eq_iff.mpr fun _ => h.mem_iff

theorem setOf_getD {x y : Option (List α)} (h : Option.Rel List.Perm x y) :
    setOf (x.getD []) = setOf (y.getD []) :=
  setOf_perm (perm_getD h)

theorem fieldForm_reordered {x y : FieldDef} (h : x.Reordered y) : fieldForm x = fieldForm y := by
  rw [fieldForm, fieldForm, h.type, setOf_getD h.values, h.entity]

theorem entityForm_reordered {x y : EntityDef} (h : x.Reordered y)
    (hfields : (x.fields.map FieldDef.name).Nodup)
    (hrelations : ((x.relations.getD []).map RelationDef.name).Nodup) :
    entityForm x = entityForm y := by
  have hperm : PermOf Eq (x.relations.getD []) (y.relations.getD []) :=
    PermOf.of_perm (perm_getD h.relations) Eq.refl
  rw [entityForm, entityForm,
    tabulate_permOf h.fields hfields (fun _ _ hr => hr.name)
      fun _ _ _ _ hr => fieldForm_reordered hr,
    tabulate_permOf hperm hrelations (fun _ _ hr => congrArg _ hr)
      fun _ _ _ _ hr => congrArg _ hr]

theorem pageForm_reordered {x y : PageDef} (h : x.Reordered y) : pageForm x = pageForm y := by
  rw [pageForm, pageForm, h.type, h.entity]

theorem approvalForm_reordered {x y : Option ApprovalRule}
    (h : Option.Rel ApprovalRule.Reordered x y) : x.map approvalForm = y.map approvalForm := by
  cases h with
  | none => rfl
  | some h =>
    rw [Option.map_some, Option.map_some, approvalForm, approvalForm, h.count, setOf_getD h.roles]

theorem getD_bind_reordered {β : Type} {R : α → α → Prop} {f : α → Option (List β)} {x y : Option α}
    (h : Option.Rel R x y) (hf : ∀ a b, R a b → Option.Rel List.Perm (f a) (f b)) :
    ((x.bind f).getD []).Perm ((y.bind f).getD []) := by
  cases h with
  | none => exact List.Perm.refl _
  | some h => exact perm_getD (hf _ _ h)

theorem transitionForm_reordered {x y : TransitionDef} (h : x.Reordered y) :
    transitionForm x = transitionForm y := by
  have hroles : (guardRoles x).Perm (guardRoles y) :=
    getD_bind_reordered h.guard fun _ _ hr => hr.roles
  have hrequire : (guardRequire x).Perm (guardRequire y) :=
    getD_bind_reordered h.guard fun _ _ hr => hr.require
  rw [transitionForm, transitionForm, h.from, h.to, setOf_perm hroles,
    setOf_perm (hrequire.map _), approvalForm_reordered h.approval]

theorem workflowForm_reordered {x y : WorkflowDef} (h : x.Reordered y)
    (htransitions : (x.transitions.map TransitionDef.name).Nodup) :
    workflowForm x = workflowForm y := by
  rw [workflowForm, workflowForm, h.entity, h.stateField, h.initial,
    tabulate_permOf h.transitions htransitions (fun _ _ hr => hr.name)
      fun _ _ _ _ hr => transitionForm_reordered hr]

theorem specForm_reordered {x y : AppSpec} (h : x.Reordered y) (hx : x.valid = true) :
    specForm x = specForm y := by
  have hentities := tabulate_permOf h.entities (AppSpec.nodup_entityNames hx)
    (fun _ _ hr => hr.name) fun _ he _ _ hr =>
      entityForm_reordered hr (AppSpec.nodup_fieldNames hx he) (AppSpec.nodup_relationNames hx he)
  have hpages := tabulate_permOf (permOf_getD h.pages) (AppSpec.nodup_pageNames hx)
    (fun _ _ hr => hr.name) fun _ _ _ _ hr => pageForm_reordered hr
  have hworkflows := tabulate_permOf (permOf_getD h.workflows)
    (AppSpec.nodup_workflowNames hx) (fun _ _ hr => hr.name) fun _ hw _ _ hr => by
      obtain ⟨_, _, hbound⟩ := AppSpec.boundTo_of_mem hx hw
      exact workflowForm_reordered hr hbound.nodup_transitionNames
  rw [specForm, specForm, setOf_getD h.app.roles, hentities, hpages, hworkflows]

/-- The comparison decides the equality of normal forms.  Hence equivalence of valid specs is
reflexive, symmetric and transitive, and the order of no array matters. -/
theorem compareSpecs_decides_specForm {x y : AppSpec} (hx : x.valid = true) (hy : y.valid = true) :
    (compareSpecs x y = [] ↔ specForm x = specForm y) ∧
      compareSpecs x x = [] ∧
      (compareSpecs x y = [] → compareSpecs y x = []) ∧
      (∀ z : AppSpec, z.valid = true → compareSpecs x y = [] → compareSpecs y z = [] →
        compareSpecs x z = []) ∧
      ∀ x' y' : AppSpec, x.Reordered x' → y.Reordered y' →
        (compareSpecs x' y' = [] ↔ compareSpecs x y = []) := by
  have hdecides : ∀ {v w : AppSpec}, v.valid = true → w.valid = true →
      (compareSpecs v w = [] ↔ specForm v = specForm w) := by
    intro v w hv hw
    rw [compareSpecs_eq_nil_iff hv hw, agreeCompared_iff hv hw]
  refine ⟨hdecides hx hy, (hdecides hx hx).mpr rfl, fun h => ?_, fun z hz hxy hyz => ?_,
    fun x' y' hxx hyy => ?_⟩
  · exact (hdecides hy hx).mpr ((hdecides hx hy).mp h).symm
  · exact (hdecides hx hz).mpr (((hdecides hx hy).mp hxy).trans ((hdecides hy hz).mp hyz))
  · have hx' : x'.valid = true := hxx.valid_iff.mp hx
    have hy' : y'.valid = true := hyy.valid_iff.mp hy
    rw [hdecides hx' hy', hdecides hx hy, specForm_reordered hxx hx, specForm_reordered hyy hy]

/-- Tools are in no normal form. -/
theorem specForm_contracts :
    specForm (contracts ["read-contract"]) = specForm (contracts ["read-contract", "pay-invoice"]) := by
  have hvalid : (contracts ["read-contract"]).valid = true := by decide
  have hvalid' : (contracts ["read-contract", "pay-invoice"]).valid = true := by decide
  exact (compareSpecs_decides_specForm hvalid hvalid').1.mp (by decide)

end OpenRupiv.Generator
