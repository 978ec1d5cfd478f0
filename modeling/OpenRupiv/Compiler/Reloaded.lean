import OpenRupiv.Compiler.SpecTest
import OpenRupiv.Generator.Compare

/-!
# Specs that are loaded again

The spec of a document is printed to `spec.json` and validated once more when the app is loaded.  It
is the same spec but for the sign of a zero, and it is valid still.
-/

namespace OpenRupiv.Compiler

open Js Spec Generator

variable {α β : Type}

/-- The default of a field: `-0` is the number `0`. -/
def unsignedField (field : FieldDef) : FieldDef :=
  { field with default := field.default.map unsignedValue }

def unsignedEntity (entity : EntityDef) : EntityDef :=
  { entity with fields := entity.fields.map unsignedField }

def unsignedGuard (guard : TransitionGuard) : TransitionGuard :=
  { guard with require := guard.require.map (List.map unsignedPredicate) }

def unsignedTransition (transition : TransitionDef) : TransitionDef :=
  { transition with guard := transition.guard.map unsignedGuard }

def unsignedWorkflow (workflow : WorkflowDef) : WorkflowDef :=
  { workflow with transitions := workflow.transitions.map unsignedTransition }

def unsignedSpec (spec : AppSpec) : AppSpec :=
  { spec with
    entities := spec.entities.map unsignedEntity
    workflows := spec.workflows.map (List.map unsignedWorkflow) }

/-- What decodes to a value with `P` is decoded to its image under `f` after it was printed. -/
def Reloads (decode : Json → Option α) (P : α → Prop) (f : α → α) : Prop :=
  ∀ v x, v.distinctKeys = true → decode v = some x → P x → decode (reprint v) = some (f x)

/-- What decodes is decoded to the same. -/
def Stable (decode : Json → Option α) : Prop := Reloads decode (fun _ => True) id

theorem stable_decodeFree : Stable decodeFree := by
  intro v x _ hx _
  cases v with
  | scalar a =>
    cases a with
    | str t => exact hx
    | _ => exact absurd hx (by simp [decodeFree])
  | _ => exact absurd hx (by simp [decodeFree])

theorem stable_decodeName : Stable decodeName := by
  intro v x _ hx _
  cases v with
  | scalar a =>
    cases a with
    | str t => exact hx
    | _ => exact absurd hx (by simp [decodeName])
  | _ => exact absurd hx (by simp [decodeName])

theorem stable_decodeBool : Stable decodeBool := by
  intro v x _ hx _
  cases v with
  | scalar a =>
    cases a with
    | bool b => exact hx
    | _ => exact absurd hx (by simp [decodeBool])
  | _ => exact absurd hx (by simp [decodeBool])

theorem stable_decodeCount : Stable decodeCount := by
  intro v x _ hx _
  cases v with
  | scalar a =>
    cases a with
    | num n =>
      cases n with
      | infinite neg => exact absurd hx (by simp [decodeCount, natOfNum])
      | zero neg => exact hx
      | finite d => exact hx
    | _ => exact absurd hx (by simp [decodeCount])
  | _ => exact absurd hx (by simp [decodeCount])

theorem stable_decodeOneOf (print : α → String) (values : List α) :
    Stable (decodeOneOf print values) := by
  intro v x hv hx _
  obtain ⟨s, hs, hfind⟩ := Option.bind_eq_some_iff.mp hx
  rw [decodeOneOf, stable_decodeName v s hv hs trivial]
  exact hfind

theorem reloads_decodeLiteral :
    Reloads decodeLiteral (fun value => value.conforms = true) unsignedValue := by
  intro v x _ hx hfinite
  cases v with
  | scalar a =>
    cases a with
    | str t =>
      obtain rfl := Option.some.inj hx
      rfl
    | bool b =>
      obtain rfl := Option.some.inj hx
      rfl
    | num n =>
      obtain rfl := Option.some.inj hx
      cases n with
      | infinite neg => exact absurd hfinite (by simp [Literal.conforms, Num.isFinite])
      | zero neg => rfl
      | finite d => rfl
    | null => exact absurd hx (by simp [decodeLiteral])
  | _ => exact absurd hx (by simp [decodeLiteral])

theorem reloads_decodeArray {decode : Json → Option α} {P : α → Prop} {f : α → α}
    (h : Reloads decode P f) : Reloads (decodeArray decode) (fun xs => ∀ x ∈ xs, P x) (List.map f) := by
  intro v xs hv hxs hP
  cases v with
  | arr items =>
    rw [Json.distinctKeys_arr] at hv
    rw [reprint, Json.rebuild_arr, decodeArray]
    rw [decodeArray] at hxs
    induction items generalizing xs with
    | nil =>
      obtain rfl := Option.some.inj hxs
      rfl
    | cons v items ih =>
      rw [List.mapM_cons] at hxs
      obtain ⟨x, hx, hrest⟩ := Option.bind_eq_some_iff.mp hxs
      obtain ⟨ys, hys, heq⟩ := Option.bind_eq_some_iff.mp hrest
      obtain rfl := Option.some.inj heq
      have hfirst := h v x (hv v (by simp)) hx (hP x (by simp))
      have hothers := ih ys (fun y hy => hP y (by simp [hy]))
        (fun w hw => hv w (by simp [hw])) hys
      rw [List.map_cons, List.mapM_cons]
      change (do let r ← decode (reprint v); _) = _
      rw [hfirst, hothers]
      rfl
  | _ => exact absurd hxs (by simp [decodeArray])

theorem stable_decodeArray {decode : Json → Option α} (h : Stable decode) :
    Stable (decodeArray decode) := by
  intro v xs hv hxs _
  have hmap := reloads_decodeArray h v xs hv hxs fun _ _ => trivial
  rwa [List.map_id] at hmap

/-- The members of the printed value decode as those of the value do. -/
structure MembersReload (ms ms' : List (Text × Json)) : Prop where
  required : ∀ {α : Type} {decode : Json → Option α} {P : α → Prop} {f : α → α} {key : String}
    {x : α}, Reloads decode P f → P x → required ms key decode = some x →
      required ms' key decode = some (f x)
  optional : ∀ {α : Type} {decode : Json → Option α} {P : α → Prop} {f : α → α} {key : String}
    {x : Option α}, Reloads decode P f → (∀ y ∈ x, P y) → optional ms key decode = some x →
      optional ms' key decode = some (x.map f)

theorem membersOf_reprint {allowed : List String} {v : Json} {ms : List (Text × Json)}
    (hv : v.distinctKeys = true) (hms : membersOf allowed v = some ms) :
    ∃ ms', membersOf allowed (reprint v) = some ms' ∧ MembersReload ms ms' := by
  cases v with
  | obj members =>
    obtain ⟨hallowed, hmembers⟩ := Option.ite_none_right_eq_some.mp hms
    obtain rfl := Option.some.inj hmembers
    rw [Json.distinctKeys_obj] at hv
    have hperm := perm_ownEntries members
    have hlookup : ∀ k, (mapValues reprint (ownEntries members)).lookup k =
        (members.lookup k).map reprint := by
      intro k
      rw [lookup_mapValues, lookup_perm hperm.symm hv.1 k]
    have hobject : reprint (.obj members) = .obj (mapValues reprint (ownEntries members)) :=
      Json.rebuild_obj members
    refine ⟨mapValues reprint (ownEntries members), ?_, ?_, ?_⟩
    · rw [hobject, membersOf, keysOf_mapValues, if_pos]
      rw [List.all_eq_true] at hallowed ⊢
      intro k hk
      exact hallowed k ((hperm.map Prod.fst).mem_iff.mp hk)
    · intro α decode P f key x hreloads hP hx
      obtain ⟨w, hw, hdecode⟩ := Option.bind_eq_some_iff.mp hx
      rw [Spec.required, hlookup, hw]
      exact hreloads w x (hv.2 _ (mem_of_lookup hw)) hdecode hP
    · intro α decode P f key x hreloads hP hx
      unfold Spec.optional at hx ⊢
      rw [hlookup]
      cases hw : members.lookup (ofString key) with
      | none =>
        rw [hw] at hx
        obtain rfl := Option.some.inj hx
        rfl
      | some w =>
        rw [hw] at hx
        obtain ⟨y, hdecode, rfl⟩ := Option.map_eq_some_iff.mp hx
        have hy := hreloads w y (hv.2 _ (mem_of_lookup hw)) hdecode (hP y rfl)
        simp only [Option.map_some, hy]
  | _ => exact absurd hms (by simp [membersOf])

namespace MembersReload

variable {ms ms' : List (Text × Json)} {decode : Json → Option α} {key : String}

theorem same (h : MembersReload ms ms') (hstable : Stable decode) {x : α}
    (hx : Spec.required ms key decode = some x) : Spec.required ms' key decode = some x :=
  h.required hstable trivial hx

theorem sameOptional (h : MembersReload ms ms') (hstable : Stable decode) {x : Option α}
    (hx : Spec.optional ms key decode = some x) : Spec.optional ms' key decode = some x := by
  have hmap := h.optional hstable (fun _ _ => trivial) hx
  rwa [Option.map_id] at hmap

end MembersReload

theorem stable_decodeNames : Stable decodeNames := stable_decodeArray stable_decodeName

theorem stable_decodeFieldType : Stable decodeFieldType := stable_decodeOneOf _ _

theorem reloads_decodeField :
    Reloads decodeField (fun field => field.conforms = true) unsignedField := by
  intro v x hv hx hconforms
  simp only [decodeField, Option.bind_eq_bind, Option.bind_eq_some_iff, Option.pure_def,
    Option.some.injEq] at hx
  obtain ⟨ms, hms, name, hname, type, htype, isRequired, hrequired, unique, hunique, values, hvalues,
    entity, hentity, default, hdefault, rfl⟩ := hx
  obtain ⟨ms', hms', h⟩ := membersOf_reprint hv hms
  simp only [FieldDef.conforms, Bool.and_eq_true, Option.all_eq_true] at hconforms
  rw [decodeField, hms']
  simp only [Option.bind_eq_bind, Option.bind_some, h.same stable_decodeName hname,
    h.same stable_decodeFieldType htype, h.sameOptional stable_decodeBool hrequired,
    h.sameOptional stable_decodeBool hunique, h.sameOptional stable_decodeNames hvalues,
    h.sameOptional stable_decodeName hentity,
    h.optional reloads_decodeLiteral hconforms.2 hdefault]
  rfl

theorem stable_decodeRelation : Stable decodeRelation := by
  intro v x hv hx _
  simp only [decodeRelation, Option.bind_eq_bind, Option.bind_eq_some_iff, Option.pure_def,
    Option.some.injEq] at hx
  obtain ⟨ms, hms, name, hname, kind, hkind, target, htarget, rfl⟩ := hx
  obtain ⟨ms', hms', h⟩ := membersOf_reprint hv hms
  rw [decodeRelation, hms']
  simp only [Option.bind_eq_bind, Option.bind_some, h.same stable_decodeName hname,
    h.same (stable_decodeOneOf _ _) hkind, h.same stable_decodeName htarget]
  rfl

theorem reloads_decodeEntity :
    Reloads decodeEntity (fun entity => entity.conforms = true) unsignedEntity := by
  intro v x hv hx hconforms
  simp only [decodeEntity, Option.bind_eq_bind, Option.bind_eq_some_iff, Option.pure_def,
    Option.some.injEq] at hx
  obtain ⟨ms, hms, name, hname, description, hdescription, fields, hfields, relations, hrelations,
    rfl⟩ := hx
  obtain ⟨ms', hms', h⟩ := membersOf_reprint hv hms
  simp only [EntityDef.conforms, Bool.and_eq_true, List.all_eq_true] at hconforms
  rw [decodeEntity, hms']
  simp only [Option.bind_eq_bind, Option.bind_some, h.same stable_decodeName hname,
    h.sameOptional stable_decodeFree hdescription,
    h.required (reloads_decodeArray reloads_decodeField) hconforms.1.2 hfields,
    h.sameOptional (stable_decodeArray stable_decodeRelation) hrelations]
  rfl

theorem stable_decodePage : Stable decodePage := by
  intro v x hv hx _
  simp only [decodePage, Option.bind_eq_bind, Option.bind_eq_some_iff, Option.pure_def,
    Option.some.injEq] at hx
  obtain ⟨ms, hms, name, hname, type, htype, entity, hentity, title, htitle, fields, hfields, rfl⟩ :=
    hx
  obtain ⟨ms', hms', h⟩ := membersOf_reprint hv hms
  rw [decodePage, hms']
  simp only [Option.bind_eq_bind, Option.bind_some, h.same stable_decodeName hname,
    h.same (stable_decodeOneOf _ _) htype, h.same stable_decodeName hentity,
    h.sameOptional stable_decodeFree htitle, h.sameOptional stable_decodeNames hfields]
  rfl

theorem reloads_decodePredicate :
    Reloads decodePredicate (fun predicate => predicate.conforms = true) unsignedPredicate := by
  intro v x hv hx hconforms
  simp only [decodePredicate, Option.bind_eq_bind, Option.bind_eq_some_iff, Option.pure_def,
    Option.some.injEq] at hx
  obtain ⟨ms, hms, field, hfield, op, hop, value, hvalue, rfl⟩ := hx
  obtain ⟨ms', hms', h⟩ := membersOf_reprint hv hms
  simp only [FieldPredicate.conforms, Bool.and_eq_true, Option.all_eq_true] at hconforms
  rw [decodePredicate, hms']
  simp only [Option.bind_eq_bind, Option.bind_some, h.same stable_decodeName hfield,
    h.same (stable_decodeOneOf _ _) hop, h.optional reloads_decodeLiteral hconforms.2 hvalue]
  rfl

theorem reloads_decodeGuard :
    Reloads decodeGuard (fun guard => guard.conforms = true) unsignedGuard := by
  intro v x hv hx hconforms
  simp only [decodeGuard, Option.bind_eq_bind, Option.bind_eq_some_iff, Option.pure_def,
    Option.some.injEq] at hx
  obtain ⟨ms, hms, roles, hroles, require, hrequire, rfl⟩ := hx
  obtain ⟨ms', hms', h⟩ := membersOf_reprint hv hms
  simp only [TransitionGuard.conforms, Bool.and_eq_true, Option.all_eq_true, List.all_eq_true]
    at hconforms
  rw [decodeGuard, hms']
  simp only [Option.bind_eq_bind, Option.bind_some, h.sameOptional stable_decodeNames hroles,
    h.optional (reloads_decodeArray reloads_decodePredicate)
      (fun predicates hpredicates => (hconforms.2 predicates hpredicates).2) hrequire]
  rfl

theorem stable_decodeApproval : Stable decodeApproval := by
  intro v x hv hx _
  simp only [decodeApproval, Option.bind_eq_bind, Option.bind_eq_some_iff, Option.pure_def,
    Option.some.injEq] at hx
  obtain ⟨ms, hms, count, hcount, roles, hroles, rfl⟩ := hx
  obtain ⟨ms', hms', h⟩ := membersOf_reprint hv hms
  rw [decodeApproval, hms']
  simp only [Option.bind_eq_bind, Option.bind_some, h.same stable_decodeCount hcount,
    h.sameOptional stable_decodeNames hroles]
  rfl

theorem reloads_decodeTransition :
    Reloads decodeTransition (fun transition => transition.conforms = true) unsignedTransition := by
  intro v x hv hx hconforms
  simp only [decodeTransition, Option.bind_eq_bind, Option.bind_eq_some_iff, Option.pure_def,
    Option.some.injEq] at hx
  obtain ⟨ms, hms, name, hname, source, hsource, target, htarget, guard, hguard, approval, happroval,
    rfl⟩ := hx
  obtain ⟨ms', hms', h⟩ := membersOf_reprint hv hms
  simp only [TransitionDef.conforms, Bool.and_eq_true, Option.all_eq_true] at hconforms
  rw [decodeTransition, hms']
  simp only [Option.bind_eq_bind, Option.bind_some, h.same stable_decodeName hname,
    h.same stable_decodeName hsource, h.same stable_decodeName htarget,
    h.optional reloads_decodeGuard hconforms.1.2 hguard,
    h.sameOptional stable_decodeApproval happroval]
  rfl

theorem reloads_decodeWorkflow :
    Reloads decodeWorkflow (fun workflow => workflow.conforms = true) unsignedWorkflow := by
  intro v x hv hx hconforms
  simp only [decodeWorkflow, Option.bind_eq_bind, Option.bind_eq_some_iff, Option.pure_def,
    Option.some.injEq] at hx
  obtain ⟨ms, hms, name, hname, entity, hentity, stateField, hstateField, initial, hinitial,
    transitions, htransitions, rfl⟩ := hx
  obtain ⟨ms', hms', h⟩ := membersOf_reprint hv hms
  simp only [WorkflowDef.conforms, Bool.and_eq_true, List.all_eq_true] at hconforms
  rw [decodeWorkflow, hms']
  simp only [Option.bind_eq_bind, Option.bind_some, h.same stable_decodeName hname,
    h.same stable_decodeName hentity, h.same stable_decodeName hstateField,
    h.same stable_decodeName hinitial,
    h.required (reloads_decodeArray reloads_decodeTransition) hconforms.2 htransitions]
  rfl

theorem stable_decodePolicy : Stable decodePolicy := by
  intro v x hv hx _
  simp only [decodePolicy, Option.bind_eq_bind, Option.bind_eq_some_iff, Option.pure_def,
    Option.some.injEq] at hx
  obtain ⟨ms, hms, name, hname, description, hdescription, rego, hrego, rfl⟩ := hx
  obtain ⟨ms', hms', h⟩ := membersOf_reprint hv hms
  rw [decodePolicy, hms']
  simp only [Option.bind_eq_bind, Option.bind_some, h.same stable_decodeName hname,
    h.sameOptional stable_decodeFree hdescription, h.sameOptional stable_decodeFree hrego]
  rfl

theorem stable_decodeProposalRef : Stable decodeProposalRef := by
  intro v x hv hx _
  simp only [decodeProposalRef, Option.bind_eq_bind, Option.bind_eq_some_iff, Option.pure_def,
    Option.some.injEq] at hx
  obtain ⟨ms, hms, workflow, hworkflow, transition, htransition, rfl⟩ := hx
  obtain ⟨ms', hms', h⟩ := membersOf_reprint hv hms
  rw [decodeProposalRef, hms']
  simp only [Option.bind_eq_bind, Option.bind_some, h.same stable_decodeName hworkflow,
    h.same stable_decodeName htransition]
  rfl

theorem stable_decodeAgentTask : Stable decodeAgentTask := by
  intro v x hv hx _
  simp only [decodeAgentTask, Option.bind_eq_bind, Option.bind_eq_some_iff, Option.pure_def,
    Option.some.injEq] at hx
  obtain ⟨ms, hms, name, hname, description, hdescription, tools, htools, proposes, hproposes, rfl⟩ :=
    hx
  obtain ⟨ms', hms', h⟩ := membersOf_reprint hv hms
  rw [decodeAgentTask, hms']
  simp only [Option.bind_eq_bind, Option.bind_some, h.same stable_decodeName hname,
    h.sameOptional stable_decodeFree hdescription, h.sameOptional stable_decodeNames htools,
    h.sameOptional (stable_decodeArray stable_decodeProposalRef) hproposes]
  rfl

theorem stable_decodeEvidenceHook : Stable decodeEvidenceHook := by
  intro v x hv hx _
  simp only [decodeEvidenceHook, Option.bind_eq_bind, Option.bind_eq_some_iff, Option.pure_def,
    Option.some.injEq] at hx
  obtain ⟨ms, hms, name, hname, description, hdescription, rfl⟩ := hx
  obtain ⟨ms', hms', h⟩ := membersOf_reprint hv hms
  rw [decodeEvidenceHook, hms']
  simp only [Option.bind_eq_bind, Option.bind_some, h.same stable_decodeName hname,
    h.sameOptional stable_decodeFree hdescription]
  rfl

theorem stable_decodeApp : Stable decodeApp := by
  intro v x hv hx _
  simp only [decodeApp, Option.bind_eq_bind, Option.bind_eq_some_iff, Option.pure_def,
    Option.some.injEq] at hx
  obtain ⟨ms, hms, name, hname, slug, hslug, description, hdescription, version, hversion, roles,
    hroles, rfl⟩ := hx
  obtain ⟨ms', hms', h⟩ := membersOf_reprint hv hms
  rw [decodeApp, hms']
  simp only [Option.bind_eq_bind, Option.bind_some, h.same stable_decodeFree hname,
    h.same stable_decodeName hslug, h.sameOptional stable_decodeFree hdescription,
    h.same stable_decodeName hversion, h.sameOptional stable_decodeNames hroles]
  rfl

theorem stable_decodeSpecVersion : Stable decodeSpecVersion := stable_decodeOneOf _ _

theorem reloads_decodeSpec : Reloads decodeSpec (fun spec => spec.conforms = true) unsignedSpec := by
  intro v x hv hx hconforms
  simp only [decodeSpec, Option.bind_eq_bind, Option.bind_eq_some_iff, Option.pure_def,
    Option.some.injEq] at hx
  obtain ⟨ms, hms, specVersion, hspecVersion, app, happ, entities, hentities, pages, hpages, workflows,
    hworkflows, policies, hpolicies, agents, hagents, evidence, hevidence, rfl⟩ := hx
  obtain ⟨ms', hms', h⟩ := membersOf_reprint hv hms
  simp only [AppSpec.conforms, Bool.and_eq_true, List.all_eq_true] at hconforms
  obtain ⟨⟨⟨⟨⟨-, hentity⟩, -⟩, hworkflow⟩, -⟩, -⟩ := hconforms.1
  rw [decodeSpec, hms']
  simp only [Option.bind_eq_bind, Option.bind_some, h.same stable_decodeSpecVersion hspecVersion,
    h.same stable_decodeApp happ,
    h.required (reloads_decodeArray reloads_decodeEntity) hentity hentities,
    h.sameOptional (stable_decodeArray stable_decodePage) hpages,
    h.optional (reloads_decodeArray reloads_decodeWorkflow)
      (fun items hitems workflow hmem => hworkflow workflow (by rw [hitems]; exact hmem)) hworkflows,
    h.sameOptional (stable_decodeArray stable_decodePolicy) hpolicies,
    h.sameOptional (stable_decodeArray stable_decodeAgentTask) hagents,
    h.sameOptional (stable_decodeArray stable_decodeEvidenceHook) hevidence]
  rfl

theorem conforms_unsignedValue (value : Literal) :
    (unsignedValue value).conforms = value.conforms := by
  cases value with
  | num n => cases n <;> rfl
  | _ => rfl

theorem conforms_unsignedField (field : FieldDef) :
    (unsignedField field).conforms = field.conforms := by
  have hdefault : (field.default.map unsignedValue).all Literal.conforms =
      field.default.all Literal.conforms := by
    rw [Option.all_map]
    exact congrArg (field.default.all ·) (funext conforms_unsignedValue)
  rw [FieldDef.conforms, FieldDef.conforms, unsignedField, hdefault]

theorem conforms_unsignedEntity (entity : EntityDef) :
    (unsignedEntity entity).conforms = entity.conforms := by
  have hfields : (entity.fields.map unsignedField).all FieldDef.conforms =
      entity.fields.all FieldDef.conforms := by
    rw [List.all_map]
    exact congrArg entity.fields.all (funext conforms_unsignedField)
  rw [EntityDef.conforms, EntityDef.conforms, unsignedEntity, hfields]
  simp only [ne_eq, List.map_eq_nil_iff]

theorem conforms_unsignedPredicate (predicate : FieldPredicate) :
    (unsignedPredicate predicate).conforms = predicate.conforms := by
  have hvalue : (predicate.value.map unsignedValue).all Literal.conforms =
      predicate.value.all Literal.conforms := by
    rw [Option.all_map]
    exact congrArg (predicate.value.all ·) (funext conforms_unsignedValue)
  rw [FieldPredicate.conforms, FieldPredicate.conforms, unsignedPredicate, hvalue]

theorem conforms_unsignedGuard (guard : TransitionGuard) :
    (unsignedGuard guard).conforms = guard.conforms := by
  have hall (predicates : List FieldPredicate) :
      (predicates.map unsignedPredicate).all FieldPredicate.conforms =
        predicates.all FieldPredicate.conforms := by
    rw [List.all_map]
    exact congrArg predicates.all (funext conforms_unsignedPredicate)
  cases hrequire : guard.require with
  | none => simp [TransitionGuard.conforms, unsignedGuard, hrequire]
  | some predicates => simp [TransitionGuard.conforms, unsignedGuard, hrequire, hall]

theorem conforms_unsignedTransition (transition : TransitionDef) :
    (unsignedTransition transition).conforms = transition.conforms := by
  have hguard : (transition.guard.map unsignedGuard).all TransitionGuard.conforms =
      transition.guard.all TransitionGuard.conforms := by
    rw [Option.all_map]
    exact congrArg (transition.guard.all ·) (funext conforms_unsignedGuard)
  rw [TransitionDef.conforms, TransitionDef.conforms, unsignedTransition, hguard]

theorem conforms_unsignedWorkflow (workflow : WorkflowDef) :
    (unsignedWorkflow workflow).conforms = workflow.conforms := by
  have htransitions : (workflow.transitions.map unsignedTransition).all TransitionDef.conforms =
      workflow.transitions.all TransitionDef.conforms := by
    rw [List.all_map]
    exact congrArg workflow.transitions.all (funext conforms_unsignedTransition)
  rw [WorkflowDef.conforms, WorkflowDef.conforms, unsignedWorkflow, htransitions]
  simp only [ne_eq, List.map_eq_nil_iff]

theorem getD_map_nil (xs : Option (List α)) (f : α → β) :
    (xs.map (List.map f)).getD [] = (xs.getD []).map f := by
  cases xs <;> rfl

theorem conforms_unsignedSpec (spec : AppSpec) : (unsignedSpec spec).conforms = spec.conforms := by
  have hentities : (spec.entities.map unsignedEntity).all EntityDef.conforms =
      spec.entities.all EntityDef.conforms := by
    rw [List.all_map]
    exact congrArg spec.entities.all (funext conforms_unsignedEntity)
  have hworkflows : ((spec.workflows.map (List.map unsignedWorkflow)).getD []).all
      WorkflowDef.conforms = (spec.workflows.getD []).all WorkflowDef.conforms := by
    rw [getD_map_nil, List.all_map]
    exact congrArg (spec.workflows.getD []).all (funext conforms_unsignedWorkflow)
  rw [AppSpec.conforms, AppSpec.conforms, unsignedSpec, hentities, hworkflows]
  simp only [ne_eq, List.map_eq_nil_iff]

theorem defaultFits_unsigned {field : FieldDef} {value : Literal} (h : field.DefaultFits value) :
    (unsignedField field).DefaultFits (unsignedValue value) := by
  have htype : (unsignedField field).type = field.type := rfl
  have hvalues : (unsignedField field).values = field.values := rfl
  unfold FieldDef.DefaultFits at h ⊢
  rw [htype, hvalues]
  generalize field.type = type at h ⊢
  cases type <;> cases value <;> exact h

theorem valueFits_unsigned {field : FieldDef} {value : Literal} (h : field.ValueFits value) :
    (unsignedField field).ValueFits (unsignedValue value) := by
  have htype : (unsignedField field).type = field.type := rfl
  have hvalues : (unsignedField field).values = field.values := rfl
  unfold FieldDef.ValueFits at h ⊢
  rw [htype, hvalues]
  generalize field.type = type at h ⊢
  cases type <;> cases value <;> exact h

theorem accepted_unsignedField {names : List String} {field : FieldDef} (h : field.Accepted names) :
    (unsignedField field).Accepted names where
  values := h.values
  reference := h.reference
  target := h.target
  default := by
    intro value hvalue
    obtain ⟨given, hgiven, rfl⟩ := Option.map_eq_some_iff.mp hvalue
    exact defaultFits_unsigned (h.default given hgiven)

theorem map_name_unsignedField (fields : List FieldDef) :
    (fields.map unsignedField).map (·.name) = fields.map (·.name) := List.map_map

theorem map_name_unsignedEntity (entities : List EntityDef) :
    (entities.map unsignedEntity).map (·.name) = entities.map (·.name) := List.map_map

theorem accepted_unsignedEntity {names : List String} {entity : EntityDef}
    (h : entity.Accepted names) : (unsignedEntity entity).Accepted names where
  members := by
    have hfields : (unsignedEntity entity).fields.map (·.name) = entity.fields.map (·.name) :=
      map_name_unsignedField entity.fields
    rw [hfields]
    exact h.members
  fields := List.forall_mem_map.mpr fun field hfield => accepted_unsignedField (h.fields field hfield)
  relations := h.relations

theorem accepted_page {entities : List EntityDef} {page : PageDef} (h : page.Accepted entities) :
    page.Accepted (entities.map unsignedEntity) := by
  obtain ⟨entity, hentity, hname, hfields⟩ := h
  refine ⟨unsignedEntity entity, List.mem_map_of_mem hentity, hname, ?_⟩
  rw [unsignedEntity, map_name_unsignedField]
  exact hfields

theorem accepted_unsignedPredicate {entity : EntityDef} {predicate : FieldPredicate}
    (h : predicate.Accepted entity) :
    (unsignedPredicate predicate).Accepted (unsignedEntity entity) := by
  obtain ⟨field, hfield, hname, htype, hvalue⟩ := h
  refine ⟨unsignedField field, List.mem_map_of_mem hfield, hname, htype, ?_⟩
  change if predicate.op = .set ∨ predicate.op = .notSet then
    predicate.value.map unsignedValue = none else _
  by_cases hset : predicate.op = .set ∨ predicate.op = .notSet
  · rw [if_pos hset] at hvalue ⊢
    rw [hvalue, Option.map_none]
  · rw [if_neg hset] at hvalue ⊢
    obtain ⟨value, hgiven, hordered, hfits⟩ := hvalue
    refine ⟨unsignedValue value, ?_, hordered, valueFits_unsigned hfits⟩
    exact congrArg (Option.map unsignedValue) hgiven

theorem accepted_unsignedTransition {roles states : List String} {entity : EntityDef}
    {transition : TransitionDef} (h : transition.Accepted roles entity states) :
    (unsignedTransition transition).Accepted roles (unsignedEntity entity) states where
  «from» := h.from
  «to» := h.to
  guardRoles := by
    have hroles : (unsignedTransition transition).guard.bind (·.roles) =
        transition.guard.bind (·.roles) := by
      rw [unsignedTransition, Option.bind_map]
      rfl
    rw [hroles]
    exact h.guardRoles
  require := by
    have hrequire : ((unsignedTransition transition).guard.bind (·.require)).getD [] =
        ((transition.guard.bind (·.require)).getD []).map unsignedPredicate := by
      cases hguard : transition.guard with
      | none => simp only [unsignedTransition, hguard, Option.map_none, Option.bind_none]; rfl
      | some guard =>
        simp only [unsignedTransition, hguard, Option.map_some, Option.bind_some, unsignedGuard]
        exact getD_map_nil guard.require unsignedPredicate
    rw [hrequire]
    exact List.forall_mem_map.mpr fun predicate hpredicate =>
      accepted_unsignedPredicate (h.require predicate hpredicate)
  approvalRoles := h.approvalRoles

theorem accepted_unsignedWorkflow {roles : List String} {entities : List EntityDef}
    {workflow : WorkflowDef} (h : workflow.Accepted roles entities) :
    (unsignedWorkflow workflow).Accepted roles (entities.map unsignedEntity) := by
  obtain ⟨entity, hentity, hname, field, hfield, hfieldName, hchecks⟩ := h
  refine ⟨unsignedEntity entity, List.mem_map_of_mem hentity, hname, unsignedField field,
    List.mem_map_of_mem hfield, hfieldName, ?_⟩
  have hnames : (unsignedWorkflow workflow).transitions.map (·.name) =
      workflow.transitions.map (·.name) := List.map_map
  exact {
    type := hchecks.type
    values := hchecks.values
    initial := hchecks.initial
    transitionNames := by
      rw [hnames]
      exact hchecks.transitionNames
    transitions := List.forall_mem_map.mpr fun transition htransition =>
      accepted_unsignedTransition (hchecks.transitions transition htransition) }

theorem accepted_ref {workflows : List WorkflowDef} {ref : AgentProposalRef}
    (h : ref.Accepted workflows) : ref.Accepted (workflows.map unsignedWorkflow) := by
  obtain ⟨workflow, hworkflow, hname, transition, htransition, htransitionName, happroval⟩ := h
  exact ⟨unsignedWorkflow workflow, List.mem_map_of_mem hworkflow, hname,
    unsignedTransition transition, List.mem_map_of_mem htransition, htransitionName, happroval⟩

theorem accepted_unsignedSpec {spec : AppSpec} (h : spec.Accepted) :
    (unsignedSpec spec).Accepted := by
  have hnames : (unsignedSpec spec).entities.map (·.name) = spec.entities.map (·.name) :=
    map_name_unsignedEntity spec.entities
  have hworkflows : (unsignedSpec spec).workflows.getD [] =
      (spec.workflows.getD []).map unsignedWorkflow := getD_map_nil spec.workflows unsignedWorkflow
  have hworkflowNames : ((unsignedSpec spec).workflows.getD []).map (·.name) =
      (spec.workflows.getD []).map (·.name) := by
    rw [hworkflows]
    exact List.map_map
  exact {
    entityNames := by
      rw [hnames]
      exact h.entityNames
    entities := by
      rw [hnames]
      exact List.forall_mem_map.mpr fun entity hentity =>
        accepted_unsignedEntity (h.entities entity hentity)
    pageNames := h.pageNames
    pages := fun page hpage => accepted_page (h.pages page hpage)
    workflowNames := by
      rw [hworkflowNames]
      exact h.workflowNames
    workflows := by
      rw [hworkflows]
      exact List.forall_mem_map.mpr fun workflow hworkflow =>
        accepted_unsignedWorkflow (h.workflows workflow hworkflow)
    agentNames := h.agentNames
    agents := by
      rw [hworkflows]
      exact fun task htask ref href => accepted_ref (h.agents task htask ref href)
    version := h.version }

theorem valid_unsignedSpec {spec : AppSpec} (h : spec.valid = true) :
    (unsignedSpec spec).valid = true := by
  obtain ⟨hconforms, haccepted⟩ := AppSpec.valid_iff.mp h
  refine AppSpec.valid_iff.mpr ⟨?_, accepted_unsignedSpec haccepted⟩
  rw [conforms_unsignedSpec, hconforms]

theorem validateSpec_reprint {schemaErrors : Json → List SpecError} {document : Json}
    (hdistinct : document.distinctKeys = true) {spec : AppSpec}
    (h : validateSpec schemaErrors document = .ok spec) :
    validateSpec schemaErrors (reprint document) = .ok (unsignedSpec spec) := by
  obtain ⟨hdecode, hvalid⟩ := validateSpec_eq_ok h
  have hagain := valid_unsignedSpec hvalid
  have hconforms := AppSpec.conforms_of_valid hagain
  have hreloaded := reloads_decodeSpec document spec hdistinct hdecode
    (AppSpec.conforms_of_valid hvalid)
  have hstructural : structural (reprint document) = some (unsignedSpec spec) :=
    Option.filter_eq_some_iff.mpr ⟨hreloaded, hconforms⟩
  have hsemantic : (unsignedSpec spec).semanticErrors = [] := by
    simp only [AppSpec.valid, Bool.and_eq_true, decide_eq_true_eq] at hagain
    exact hagain.2
  cases hprinted : reprint document with
  | obj ms =>
    have hversion : ∃ version, supportedVersion ms = some version := by
      rw [hprinted] at hreloaded
      simp only [decodeSpec, Option.bind_eq_bind, Option.bind_eq_some_iff] at hreloaded
      obtain ⟨members, hmembers, version, hversion, -⟩ := hreloaded
      obtain ⟨-, hmembers⟩ := Option.ite_none_right_eq_some.mp hmembers
      obtain rfl := Option.some.inj hmembers
      exact ⟨version, hversion⟩
    obtain ⟨version, hversion⟩ := hversion
    rw [hprinted] at hstructural
    rw [validateSpec, hversion]
    simp only [hstructural, hsemantic, if_true]
  | scalar a => rw [hprinted] at hreloaded; exact absurd hreloaded (by simp [decodeSpec, membersOf])
  | arr items => rw [hprinted] at hreloaded; exact absurd hreloaded (by simp [decodeSpec, membersOf])

end OpenRupiv.Compiler
