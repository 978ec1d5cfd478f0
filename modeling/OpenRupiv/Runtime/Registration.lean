import OpenRupiv.Compiler.Names
import OpenRupiv.Runtime.History

/-!
# Routes of an app

What `registerEntityRoutes`, `registerWorkflowRoutes` and `registerPages` hand to the server, and
what they refuse to serve.  A valid spec is never refused, and the checks that the handlers make of
their spec never fail.
-/

namespace OpenRupiv.Runtime

open Js Lib Spec Audit

inductive Method where
  | GET
  | POST
  | PUT
  deriving DecidableEq

structure Route where
  method : Method
  path : String
  deriving DecidableEq

def apiBase (model : EntityModel) : String := "/api/" ++ model.apiSegment

def entityRoutes (spec : AppSpec) (entity : EntityDef) : Except RuntimeError (List Route) := do
  let model := buildEntityModel spec entity
  let base := apiBase model
  let _ ← quoteIdent model.table
  return [⟨.GET, base⟩, ⟨.POST, base⟩, ⟨.GET, base ++ "/:id"⟩, ⟨.PUT, base ++ "/:id"⟩]

def registerEntityRoutes (spec : AppSpec) : Except RuntimeError (List Route) := do
  let routes ← spec.entities.mapM (entityRoutes spec)
  return routes.flatten

/-- A workflow or a page that is bound to no entity. -/
def appSpecInvalid (what name entity : String) : RuntimeError where
  code := .ERR_APP_SPEC_INVALID
  message := ofString (what ++ " " ++ name ++ " references unknown entity " ++ entity)

def transitionPath (model : EntityModel) (transition : TransitionDef) : String :=
  apiBase model ++ "/:id/transitions/" ++ transition.name

def workflowRoutes (spec : AppSpec) (workflow : WorkflowDef) : Except RuntimeError (List Route) :=
  match spec.entities.find? fun e => e.name = workflow.entity with
  | none => .error (appSpecInvalid "workflow" workflow.name workflow.entity)
  | some entity =>
      let model := buildEntityModel spec entity
      .ok (workflow.transitions.map fun transition => ⟨.POST, transitionPath model transition⟩)

def registerWorkflowRoutes (spec : AppSpec) : Except RuntimeError (List Route) := do
  let routes ← (spec.workflows.getD []).mapM (workflowRoutes spec)
  return routes.flatten

def pageRoute (spec : AppSpec) (page : PageDef) : Except RuntimeError Route :=
  match spec.entities.find? fun e => e.name = page.entity with
  | none => .error (appSpecInvalid "page" page.name page.entity)
  | some _ => .ok ⟨.GET, "/p/" ++ page.name⟩

def registerPages (spec : AppSpec) : Except RuntimeError (List Route) := do
  let routes ← (spec.pages.getD []).mapM (pageRoute spec)
  return ⟨.GET, "/"⟩ :: routes

/-- The routes of the app, in the order in which the server takes them. -/
def register (spec : AppSpec) : Except RuntimeError (List Route) := do
  let entities ← registerEntityRoutes spec
  let workflows ← registerWorkflowRoutes spec
  let pages ← registerPages spec
  return entities ++ workflows ++ pages

def routesOfEntity (name : String) : List Route :=
  let base := "/api/" ++ entityApiSegment name
  [⟨.GET, base⟩, ⟨.POST, base⟩, ⟨.GET, base ++ "/:id"⟩, ⟨.PUT, base ++ "/:id"⟩]

def transitionRoute (x : String × String) : Route :=
  ⟨.POST, "/api/" ++ entityApiSegment x.1 ++ "/:id/transitions/" ++ x.2⟩

/-- The transitions of an app by the name of their entity. -/
def transitionNames (spec : AppSpec) : List (String × String) :=
  (spec.workflows.getD []).flatMap fun workflow =>
    workflow.transitions.map fun transition => (workflow.entity, transition.name)

/-- The routes of an app that nothing is refused of. -/
def routes (spec : AppSpec) : List Route :=
  spec.entities.flatMap (fun entity => routesOfEntity entity.name) ++
    (transitionNames spec).map transitionRoute ++
    ⟨.GET, "/"⟩ :: (spec.pages.getD []).map fun page => ⟨.GET, "/p/" ++ page.name⟩

private theorem mapM_eq_ok {α β : Type} {f : α → Except RuntimeError β} {g : α → β} {xs : List α}
    (h : ∀ x ∈ xs, f x = .ok (g x)) : xs.mapM f = .ok (xs.map g) := by
  induction xs with
  | nil => rfl
  | cons x xs ih =>
    rw [List.forall_mem_cons] at h
    rw [List.mapM_cons, h.1, ih h.2]
    rfl

theorem quoteIdent_eq_ok {name : String} (h : isSqlIdentifier name = true) :
    quoteIdent name = .ok ("\"" ++ name ++ "\"") := by
  rw [quoteIdent, if_pos h]

variable {spec : AppSpec}

theorem register_eq_ok (h : spec.valid = true) : register spec = .ok (routes spec) := by
  have hentities : registerEntityRoutes spec =
      .ok (spec.entities.map fun entity => routesOfEntity entity.name).flatten := by
    rw [registerEntityRoutes, mapM_eq_ok (g := fun entity => routesOfEntity entity.name)]
    · rfl
    intro entity he
    have hname := isName_of_isEntityName (AppSpec.isEntityName_of_mem h he)
    have hquote := quoteIdent_eq_ok (isSqlIdentifier_toSnakeCase hname)
    simp only [entityRoutes, buildEntityModel, entityTable, hquote]
    rfl
  have hworkflows : registerWorkflowRoutes spec =
      .ok ((spec.workflows.getD []).map fun workflow => workflow.transitions.map fun transition =>
        transitionRoute (workflow.entity, transition.name)).flatten := by
    rw [registerWorkflowRoutes, mapM_eq_ok (g := fun workflow => workflow.transitions.map
      fun transition => transitionRoute (workflow.entity, transition.name))]
    · rfl
    intro workflow hw
    obtain ⟨entity, states, hbound⟩ := AppSpec.boundTo_of_mem h hw
    have hfound : spec.entities.find? (fun e => e.name = workflow.entity) = some entity := hbound.found
    rw [workflowRoutes, hfound, ← hbound.name_eq]
    rfl
  have hpages : registerPages spec =
      .ok (⟨.GET, "/"⟩ :: (spec.pages.getD []).map fun page => ⟨.GET, "/p/" ++ page.name⟩) := by
    rw [registerPages, mapM_eq_ok (g := fun page => ⟨.GET, "/p/" ++ page.name⟩)]
    · rfl
    intro page hp
    obtain ⟨entity, -, hentity⟩ := AppSpec.entity_of_page h hp
    have hfound : spec.entities.find? (fun e => e.name = page.entity) = some entity := hentity
    rw [pageRoute, hfound]
  rw [register, hentities, hworkflows, hpages, routes, transitionNames, List.map_flatMap,
    List.flatMap_def, List.flatMap_def]
  simp only [List.map_map]
  rfl

theorem lookup_fieldByName (entity : EntityDef) (name : String) :
    (buildEntityModel spec entity).fieldByName.lookup name = entity.fieldByName name := by
  show (newMap (entity.fields.map fun f => (f.name, f))).lookup name = _
  rw [lookup_newMap, ← List.map_reverse, EntityDef.fieldByName]
  induction entity.fields.reverse with
  | nil => rfl
  | cons field fields ih =>
    rw [List.map_cons, List.lookup_cons, List.find?_cons]
    by_cases hname : name = field.name
    · simp [hname]
    · have hbeq : (name == field.name) = false := by simp [hname]
      simp only [hbeq, ih, Ne.symm hname, decide_false]

/-- What the handlers of a workflow rely on. -/
structure Settled (model : EntityModel) (workflow : WorkflowDef) : Prop where
  /-- The state field is an enum with all states of the workflow. -/
  states : ∃ field states, model.fieldByName.lookup workflow.stateField = some field ∧
    field.type = .enum ∧ field.values = some states ∧ workflow.initial ∈ states ∧
    ∀ transition ∈ workflow.transitions, transition.from ∈ states ∧ transition.to ∈ states
  /-- Guard predicates are about known fields, ordered ones about numbers and dates. -/
  fields : ∀ transition ∈ workflow.transitions,
    ∀ predicate ∈ (transition.guard.bind (·.require)).getD [],
      ∃ field, model.fieldByName.lookup predicate.field = some field ∧
        (predicate.op.isComparison = true → field.type.isOrdered = true)

theorem settled_of_valid (h : spec.valid = true) {workflow : WorkflowDef}
    (hw : workflow ∈ spec.workflows.getD []) {entity : EntityDef}
    (hfound : spec.entities.find? (fun e => e.name = workflow.entity) = some entity) :
    Settled (buildEntityModel spec entity) workflow := by
  obtain ⟨entity', states, hbound⟩ := AppSpec.boundTo_of_mem h hw
  have hsame : spec.entities.find? (fun e => e.name = workflow.entity) = some entity' := hbound.found
  obtain rfl : entity = entity' := Option.some.inj (hfound.symm.trans hsame)
  obtain ⟨field, hfield, hname, htype, hvalues⟩ := hbound.stateField
  constructor
  · refine ⟨field, states, ?_, htype, hvalues, hbound.initial, ?_⟩
    · rw [lookup_fieldByName, ← hname]
      exact AppSpec.fieldByName_eq h hbound.mem hfield
    · intro transition ht
      exact hbound.states_mem ht
  · intro transition ht predicate hp
    obtain ⟨field, hfield, -, hordered⟩ := hbound.predicate ht hp
    refine ⟨field, ?_, hordered⟩
    rw [lookup_fieldByName]
    exact hfield

theorem Settled.checkGuardPredicates_ne {model : EntityModel} {workflow : WorkflowDef}
    (h : Settled model workflow) {transition : TransitionDef} (ht : transition ∈ workflow.transitions)
    (host : Host) (row : Row) (predicate : FieldPredicate) :
    checkGuardPredicates host transition model row ≠ .error (unknownGuardField predicate) := by
  have hfields := h.fields transition ht
  unfold checkGuardPredicates
  generalize (transition.guard.bind (·.require)).getD [] = predicates at hfields
  induction predicates with
  | nil => simp [checkPredicates]
  | cons p rest ih =>
    rw [List.forall_mem_cons] at hfields
    obtain ⟨⟨field, hfield, -⟩, hrest⟩ := hfields
    rw [checkPredicates, hfield]
    by_cases hp : evaluatePredicate host p field row = true
    · simp only [hp, if_true]
      exact ih hrest
    · simp only [hp]
      intro heq
      have hcode := congrArg RuntimeError.code (Except.error.inj heq)
      exact absurd hcode (by simp [guardFailed, unknownGuardField])

theorem compileErrors_of_valid (h : spec.valid = true) {error : Compiler.CompilerError}
    (he : error ∈ Compiler.compileErrors spec) :
    error.code = .spec .ERR_DUPLICATE_NAME ∨ error.code = .ERR_UNSUPPORTED_SECTION := by
  have hsection : ∀ name count, error ∈ Compiler.unsupportedSection name count →
      error.code = .ERR_UNSUPPORTED_SECTION := by
    intro name count hmem
    unfold Compiler.unsupportedSection at hmem
    split at hmem
    · rw [List.mem_singleton.mp hmem]
    · exact absurd hmem List.not_mem_nil
  have hclaim : ∀ origins claim, error ∈ Compiler.claimTable origins claim →
      error.code = .spec .ERR_DUPLICATE_NAME := by
    intro origins claim hmem
    unfold Compiler.claimTable at hmem
    split at hmem
    · rw [List.mem_singleton.mp hmem]
    · exact absurd hmem List.not_mem_nil
  simp only [Compiler.compileErrors, List.mem_append] at he
  rcases he with (he | he) | he
  · exact .inr (hsection _ _ he)
  · exact .inr (hsection _ _ he)
  obtain ⟨before, entity, after, hentities, he⟩ := mem_entries.mp he
  have hentity : entity ∈ spec.entities := by simp [hentities]
  simp only [Compiler.entityErrors, List.mem_append] at he
  rcases he with (he | he) | he
  · exact .inl (hclaim _ _ he)
  · obtain ⟨pre, field, post, hfields, he⟩ := mem_entries.mp he
    have hfield : field ∈ entity.fields := by simp [hfields]
    simp only [Compiler.fieldErrors, List.mem_append] at he
    rcases he with (he | he) | he
    · unfold Compiler.columnErrors at he
      dsimp only at he
      split at he
      · rw [List.mem_singleton.mp he]
        exact .inl rfl
      split at he
      · rw [List.mem_singleton.mp he]
        exact .inl rfl
      · exact absurd he List.not_mem_nil
    · -- an enum field has values
      unfold Compiler.enumErrors at he
      split at he
      · rename_i henum
        obtain ⟨values, hvalues, hne⟩ := AppSpec.values_of_enum h hentity hfield henum.1
        exact absurd henum.2 (by simpa [hvalues] using hne)
      · exact absurd he List.not_mem_nil
    · -- a reference field has a target
      unfold Compiler.referenceErrors at he
      split at he
      · rename_i hreference
        obtain ⟨target, htarget, hmem⟩ := AppSpec.target_of_reference h hentity hfield hreference
        simp [htarget, hmem] at he
      · exact absurd he List.not_mem_nil
  · obtain ⟨pre, relation, post, hrelations, he⟩ := mem_entries.mp he
    have hrelation : relation ∈ entity.relations.getD [] := by simp [hrelations]
    unfold Compiler.relationErrors at he
    dsimp only at he
    split at he
    · rw [List.mem_singleton.mp he]
      exact .inr rfl
    split at he
    · rename_i hunknown
      exact absurd (AppSpec.target_of_relation h hentity hrelation) hunknown
    · cases hof : Compiler.claimOfRelation spec before.length entity pre.length relation with
      | none => simp [hof] at he
      | some claim =>
        rw [hof] at he
        exact .inl (hclaim _ _ he)

/-- The internal error of a guard is not the answer to any call of a settled workflow. -/
theorem MayReturn.not_unknownGuardField {host : Host} {i : ExecuteTransitionInput} {φ : Phase}
    (hsettled : Settled i.model i.workflow) (ht : i.transition ∈ i.workflow.transitions)
    (predicate : FieldPredicate) :
    ¬MayReturn host (.transition i) φ (.error (.runtime (unknownGuardField predicate))) := by
  have hcode : ∀ {error : RuntimeError}, error.code ≠ .ERR_INTERNAL →
      unknownGuardField predicate ≠ error := by
    intro error hne heq
    exact hne (congrArg RuntimeError.code heq.symm)
  have hfrom : ∀ row, i.requireFrom row ≠ .error (unknownGuardField predicate) := by
    intro row heq
    unfold ExecuteTransitionInput.requireFrom at heq
    split at heq
    · exact absurd heq (by simp)
    · exact hcode (by simp [ExecuteTransitionInput.badState]) (Except.error.inj heq).symm
  have hguard := fun row => hsettled.checkGuardPredicates_ne ht host row predicate
  intro hreturn
  generalize hanswer : (Except.error (Thrown.runtime (unknownGuardField predicate)) :
    Except Thrown Response) = answer at hreturn
  generalize hcall : Call.transition i = call at hreturn
  cases hreturn with
  | identifier hi hquote =>
    cases hanswer
    exact absurd (quoteIdent_code hquote) (by simp [unknownGuardField])
  | missing hi =>
    cases hcall.trans hi
    exact hcode (by simp [ExecuteTransitionInput.notFound]) (Thrown.runtime.inj (Except.error.inj hanswer))
  | state hi hrequire =>
    cases hcall.trans hi
    cases hanswer
    exact hfrom _ hrequire
  | predicates hi _ hcheck =>
    cases hcall.trans hi
    cases hanswer
    exact hguard _ hcheck
  | forbidden hi =>
    cases hcall.trans hi
    exact hcode (by simp [ExecuteTransitionInput.forbiddenRole])
      (Thrown.runtime.inj (Except.error.inj hanswer))
  | @locked i' row error hi hcheck =>
    cases hcall.trans hi
    cases hanswer
    cases row with
    | none => exact hcode (by simp [ExecuteTransitionInput.notFound]) (Except.error.inj hcheck).symm
    | some row =>
      cases hrequire : i.requireFrom row with
      | error error =>
        have hsame : i.checkRow host (some row) = .error error := by
          simp only [ExecuteTransitionInput.checkRow, ExecuteTransitionInput.requireRow]
          show (i.requireFrom row >>= fun _ => _) = _
          rw [hrequire]
          rfl
        rw [hsame] at hcheck
        rw [← Except.error.inj hcheck] at hfrom
        exact hfrom row hrequire
      | ok _ =>
        have hsame : i.checkRow host (some row) =
            checkGuardPredicates host i.transition i.model row := by
          simp only [ExecuteTransitionInput.checkRow, ExecuteTransitionInput.requireRow]
          show (i.requireFrom row >>= fun _ => _) = _
          rw [hrequire]
          rfl
        rw [hsame] at hcheck
        exact hguard row hcheck
  | column hi _ hquote =>
    cases hanswer
    exact absurd (quoteIdent_code hquote) (by simp [unknownGuardField])
  | duplicate hi =>
    cases hcall.trans hi
    exact hcode (by simp [ExecuteTransitionInput.duplicateApprover])
      (Thrown.runtime.inj (Except.error.inj hanswer))
  | refused hrequest | rejected hrequest =>
    rw [← hcall] at hrequest
    exact absurd hrequest (by simp [Call.request])
  | absent hupdate => exact absurd (hcall.trans hupdate) (by simp)
  | done => exact absurd hanswer (by simp)
  | faulted hfailure =>
    rw [← Except.error.inj hanswer] at hfailure
    generalize hthrown : Thrown.runtime (unknownGuardField predicate) = thrown at hfailure
    cases hfailure with
    | fault => exact absurd hthrown (by simp)
    | append => exact hcode (by simp [appendFailed]) (Thrown.runtime.inj hthrown)
    | batch => exact hcode (by simp [appendAllFailed]) (Thrown.runtime.inj hthrown)

/-- What the validator accepts is served, and neither the handlers nor the compiler find fault with
it, but for names that collide and sections that are not supported. -/
theorem defensive_branches_unreachable (h : spec.valid = true) :
    (∃ routes, register spec = .ok routes) ∧
      (∀ workflow ∈ spec.workflows.getD [], ∃ entity,
        spec.entities.find? (fun e => e.name = workflow.entity) = some entity ∧
          Settled (buildEntityModel spec entity) workflow) ∧
      (∀ {Client : Type} [DecidableEq Client] (pg : Postgres) (host : Host)
        (sha256 : String → String) (calls : Client → Call) (init : Contents)
        (schedule : List (Client × Choice)) (W : World (store pg) Client Thrown Unit),
        (∀ c, (calls c).Routed spec) →
        World.run schedule (server pg host sha256 calls init) = some W →
        ∀ c i predicate, calls c = .transition i →
          ¬Returned W.history c (.error (.runtime (unknownGuardField predicate)))) ∧
      ∀ error ∈ Compiler.compileErrors spec,
        error.code = .spec .ERR_DUPLICATE_NAME ∨ error.code = .ERR_UNSUPPORTED_SECTION := by
  refine ⟨⟨_, register_eq_ok h⟩, ?_, ?_, fun error => compileErrors_of_valid h⟩
  · intro workflow hw
    obtain ⟨entity, states, hbound⟩ := AppSpec.boundTo_of_mem h hw
    exact ⟨entity, hbound.found, settled_of_valid h hw hbound.found⟩
  · intro Client _ pg host sha256 calls init schedule W hrouted hrun c i predicate hcall hreturned
    obtain ⟨phases, htrace⟩ := trace_of_run hrun
    obtain ⟨φ, hmay⟩ := mayReturn_of_returned htrace hreturned
    have hroute := hrouted c
    rw [hcall] at hroute hmay
    cases hroute with
    | transition hw hfound ht => exact hmay.not_unknownGuardField (settled_of_valid h hw hfound) ht predicate

theorem valid_vendorApp : vendorApp.valid = true := by decide

theorem defensive_branches_unreachable_vendors :
    (∃ routes, register vendorApp = .ok routes) ∧
      ∀ error ∈ Compiler.compileErrors vendorApp,
        error.code = .spec .ERR_DUPLICATE_NAME ∨ error.code = .ERR_UNSUPPORTED_SECTION :=
  have h := defensive_branches_unreachable valid_vendorApp
  ⟨h.1, h.2.2.2⟩

end OpenRupiv.Runtime
