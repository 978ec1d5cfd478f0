import OpenRupiv.Js.Pointer
import OpenRupiv.Spec.Document

/-!
# Where errors point

The parts of a spec stand in its document at the paths that the semantic pass builds from loop
indices and member names, so the errors that it reports point at places of the document.
-/

namespace OpenRupiv.Spec

open Js

variable {α : Type} {document : Json} {path : String}

/-- At the path there is a value that reads as `x`. -/
def StandsAt (document : Json) (decode : Json → Option α) (path : String) (x : α) : Prop :=
  ∃ v, resolve document path = some v ∧ decode v = some x

/-- A place of the document. -/
def Exists (document : Json) (path : String) : Prop := (resolve document path).isSome = true

theorem StandsAt.exists {decode : Json → Option α} {x : α} (h : StandsAt document decode path x) :
    Exists document path := by
  obtain ⟨v, hv, -⟩ := h
  simp [Exists, hv]

/-- The members of an object that stands at the path. -/
def ObjectAt (document : Json) (path : String) (ms : List (Text × Json)) : Prop :=
  resolve document path = some (.obj ms)

theorem objectAt_of_membersOf {allowed : List String} {v : Json} {ms : List (Text × Json)}
    (hv : resolve document path = some v) (hms : membersOf allowed v = some ms) :
    ObjectAt document path ms := by
  cases v with
  | obj members =>
    rw [membersOf, Option.ite_none_right_eq_some] at hms
    rw [ObjectAt, hv, Option.some.inj hms.2]
  | _ => exact absurd hms (by simp [membersOf])

theorem ObjectAt.member {ms : List (Text × Json)} (h : ObjectAt document path ms) {key suffix : String}
    (hsuffix : suffix = "/" ++ key) (hkey : plainToken key = true) {v : Json}
    (hv : ms.lookup (ofString key) = some v) : resolve document (path ++ suffix) = some v := by
  rw [hsuffix, ← String.append_assoc, resolve_append h hkey]
  exact hv

theorem ObjectAt.required {ms : List (Text × Json)} (h : ObjectAt document path ms)
    {key suffix : String} (hsuffix : suffix = "/" ++ key) (hkey : plainToken key = true)
    {decode : Json → Option α} {x : α} (hx : required ms key decode = some x) :
    StandsAt document decode (path ++ suffix) x := by
  obtain ⟨v, hv, hdecode⟩ := Option.bind_eq_some_iff.mp hx
  exact ⟨v, h.member hsuffix hkey hv, hdecode⟩

theorem ObjectAt.optional {ms : List (Text × Json)} (h : ObjectAt document path ms)
    {key suffix : String} (hsuffix : suffix = "/" ++ key) (hkey : plainToken key = true)
    {decode : Json → Option α} {x : α} (hx : optional ms key decode = some (some x)) :
    StandsAt document decode (path ++ suffix) x := by
  unfold Spec.optional at hx
  split at hx
  · exact absurd hx (by simp)
  · rename_i v hv
    obtain ⟨y, hy, hxy⟩ := Option.map_eq_some_iff.mp hx
    exact ⟨v, h.member hsuffix hkey hv, by rw [hy, hxy]⟩

private theorem getElem?_of_mapM {f : Json → Option α} {items : List Json} {xs : List α}
    (h : items.mapM f = some xs) {i : Nat} {x : α} (hx : xs[i]? = some x) :
    ∃ v, items[i]? = some v ∧ f v = some x := by
  induction items generalizing xs i with
  | nil =>
    obtain rfl := Option.some.inj h
    exact absurd hx (by simp)
  | cons v items ih =>
    rw [List.mapM_cons] at h
    obtain ⟨y, hy, hrest⟩ := Option.bind_eq_some_iff.mp h
    obtain ⟨ys, hys, hxs⟩ := Option.bind_eq_some_iff.mp hrest
    obtain rfl := Option.some.inj hxs
    cases i with
    | zero =>
      obtain rfl := Option.some.inj hx
      exact ⟨v, rfl, hy⟩
    | succ i => exact ih hys hx

theorem StandsAt.item {decode : Json → Option α} {xs : List α}
    (h : StandsAt document (decodeArray decode) path xs) {before after : List α} {x : α}
    (hxs : xs = before ++ x :: after) : StandsAt document decode (item path before.length) x := by
  obtain ⟨v, hv, hdecode⟩ := h
  cases v with
  | arr items =>
    have hx : xs[before.length]? = some x := by simp [hxs]
    obtain ⟨w, hw, hdecode'⟩ := getElem?_of_mapM hdecode hx
    refine ⟨w, ?_, hdecode'⟩
    rw [Spec.item, resolve_append hv (plainToken_toString _), child, tokenIndex_toString,
      Option.bind_some, hw]
  | _ => exact absurd hdecode (by simp [decodeArray])

/-- Errors of a loop over an array of the document point at places when those of each round do. -/
theorem exists_of_mem_entries {decode : Json → Option α} {xs : List α} {arrayPath : String}
    (h : StandsAt document (decodeArray decode) arrayPath xs)
    {errors : Nat → List α → α → List SpecError}
    (herrors : ∀ i before x, StandsAt document decode (item arrayPath i) x →
      ∀ e ∈ errors i before x, Exists document e.path)
    {e : SpecError} (he : e ∈ entries xs errors) : Exists document e.path := by
  obtain ⟨before, x, after, hxs, hmem⟩ := mem_entries.mp he
  exact herrors _ before x (h.item hxs) e hmem

theorem exists_of_mem_entries_optional {decode : Json → Option α} {xs : Option (List α)}
    {arrayPath : String}
    (h : ∀ ys, xs = some ys → StandsAt document (decodeArray decode) arrayPath ys)
    {errors : Nat → List α → α → List SpecError}
    (herrors : ∀ i before x, StandsAt document decode (item arrayPath i) x →
      ∀ e ∈ errors i before x, Exists document e.path)
    {e : SpecError} (he : e ∈ entries (xs.getD []) errors) : Exists document e.path := by
  cases xs with
  | none => exact absurd he (by simp [entries])
  | some ys => exact exists_of_mem_entries (h ys rfl) herrors he

theorem mem_errorIf {condition : Bool} {code : SpecErrorCode} {message : Text} {e : SpecError}
    (h : e ∈ errorIf condition code path message) : condition = true ∧ e.path = path := by
  unfold errorIf at h
  split at h
  · rename_i hc
    exact ⟨hc, by rw [List.mem_singleton.mp h]⟩
  · exact absurd h List.not_mem_nil

theorem exists_of_mem_errorIf {condition : Bool} {code : SpecErrorCode} {message : Text}
    {e : SpecError} (h : Exists document path) (he : e ∈ errorIf condition code path message) :
    Exists document e.path := by
  rw [(mem_errorIf he).2]
  exact h

theorem ObjectAt.whenSome {ms : List (Text × Json)} (h : ObjectAt document path ms)
    {key suffix : String} (hsuffix : suffix = "/" ++ key) (hkey : plainToken key = true)
    {decode : Json → Option α} {x : Option α} (hx : Spec.optional ms key decode = some x) :
    ∀ y, x = some y → StandsAt document decode (path ++ suffix) y := by
  rintro y rfl
  exact h.optional hsuffix hkey hx

structure FieldAt (document : Json) (path : String) (field : FieldDef) : Prop where
  self : Exists document path
  name : Exists document (path ++ "/name")
  values : ∀ values, field.values = some values →
    StandsAt document decodeNames (path ++ "/values") values
  entity : ∀ entity, field.entity = some entity →
    StandsAt document decodeName (path ++ "/entity") entity
  default : ∀ value, field.default = some value →
    StandsAt document decodeLiteral (path ++ "/default") value

theorem fieldAt_of_standsAt {field : FieldDef} (h : StandsAt document decodeField path field) :
    FieldAt document path field := by
  have hself := h.exists
  obtain ⟨v, hv, hdecode⟩ := h
  simp only [decodeField, Option.bind_eq_bind, Option.bind_eq_some_iff, Option.pure_def,
    Option.some.injEq] at hdecode
  obtain ⟨ms, hms, name, hname, type, -, isRequired, -, unique, -, values, hvalues, entity, hentity,
    default, hdefault, rfl⟩ := hdecode
  have hat := objectAt_of_membersOf hv hms
  exact ⟨hself, (hat.required (by decide) (by decide) hname).exists,
    hat.whenSome (by decide) (by decide) hvalues, hat.whenSome (by decide) (by decide) hentity,
    hat.whenSome (by decide) (by decide) hdefault⟩

structure EntityAt (document : Json) (path : String) (entity : EntityDef) : Prop where
  name : Exists document (path ++ "/name")
  fields : StandsAt document (decodeArray decodeField) (path ++ "/fields") entity.fields
  relations : ∀ relations, entity.relations = some relations →
    StandsAt document (decodeArray decodeRelation) (path ++ "/relations") relations

theorem entityAt_of_standsAt {entity : EntityDef} (h : StandsAt document decodeEntity path entity) :
    EntityAt document path entity := by
  obtain ⟨v, hv, hdecode⟩ := h
  simp only [decodeEntity, Option.bind_eq_bind, Option.bind_eq_some_iff, Option.pure_def,
    Option.some.injEq] at hdecode
  obtain ⟨ms, hms, name, hname, -, -, fields, hfields, relations, hrelations, rfl⟩ := hdecode
  have hat := objectAt_of_membersOf hv hms
  exact ⟨(hat.required (by decide) (by decide) hname).exists,
    hat.required (by decide) (by decide) hfields, hat.whenSome (by decide) (by decide) hrelations⟩

theorem exists_of_mem_checkEntityName {i : Nat} {before : List EntityDef} {entity : EntityDef}
    (h : StandsAt document decodeEntity (item "/entities" i) entity) :
    ∀ e ∈ checkEntityName i before entity, Exists document e.path := by
  intro e he
  exact exists_of_mem_errorIf (entityAt_of_standsAt h).name he

theorem exists_of_mem_checkValues {field : FieldDef} (h : FieldAt document path field)
    {e : SpecError} (he : e ∈ checkValues path field) : Exists document e.path := by
  unfold checkValues at he
  split at he
  · exact exists_of_mem_errorIf h.self he
  · obtain ⟨hsome, hpath⟩ := mem_errorIf he
    obtain ⟨values, hvalues⟩ := Option.isSome_iff_exists.mp hsome
    rw [hpath]
    exact (h.values values hvalues).exists

theorem FieldAt.target {field : FieldDef} (h : FieldAt document path field) {target : String}
    (htarget : field.target = some target) : Exists document (path ++ "/entity") :=
  (h.entity target (Option.filter_eq_some_iff.mp htarget).1).exists

theorem exists_of_mem_checkReference {spec : AppSpec} {field : FieldDef}
    (h : FieldAt document path field) {e : SpecError} (he : e ∈ spec.checkReference path field) :
    Exists document e.path := by
  unfold AppSpec.checkReference at he
  split at he
  · split at he
    · rw [List.mem_singleton.mp he]
      exact h.self
    · rename_i target htarget
      exact exists_of_mem_errorIf (h.target htarget) he
  · obtain ⟨hsome, hpath⟩ := mem_errorIf he
    obtain ⟨target, htarget⟩ := Option.isSome_iff_exists.mp hsome
    rw [hpath]
    exact h.target htarget

theorem path_of_mem_checkDefault {field : FieldDef} {e : SpecError}
    (he : e ∈ checkDefault path field) : e.path = path ∧ field.default.isSome = true := by
  unfold checkDefault at he
  cases hdefault : field.default with
  | none => simp [hdefault] at he
  | some value =>
    refine ⟨?_, rfl⟩
    simp only [hdefault] at he
    split at he
    · exact absurd he List.not_mem_nil
    · exact absurd he List.not_mem_nil
    · exact absurd he List.not_mem_nil
    · exact absurd he List.not_mem_nil
    · exact (mem_errorIf he).2
    all_goals rw [List.mem_singleton.mp he]

theorem exists_of_mem_checkField {spec : AppSpec} {entity : EntityDef} {before : List FieldDef}
    {field : FieldDef} (h : StandsAt document decodeField path field) :
    ∀ e ∈ spec.checkField entity path before field, Exists document e.path := by
  have hat := fieldAt_of_standsAt h
  intro e he
  simp only [AppSpec.checkField, List.mem_append] at he
  rcases he with ((he | he) | he) | he
  · split at he
    · rw [List.mem_singleton.mp he]
      exact hat.name
    · exact absurd he List.not_mem_nil
  · exact exists_of_mem_checkValues hat he
  · exact exists_of_mem_checkReference hat he
  · obtain ⟨hpath, hsome⟩ := path_of_mem_checkDefault he
    obtain ⟨value, hvalue⟩ := Option.isSome_iff_exists.mp hsome
    rw [hpath]
    exact (hat.default value hvalue).exists

theorem exists_of_mem_checkRelation {spec : AppSpec} {entity : EntityDef}
    {before : List RelationDef} {relation : RelationDef}
    (h : StandsAt document decodeRelation path relation) :
    ∀ e ∈ spec.checkRelation entity path before relation, Exists document e.path := by
  obtain ⟨v, hv, hdecode⟩ := h
  simp only [decodeRelation, Option.bind_eq_bind, Option.bind_eq_some_iff, Option.pure_def,
    Option.some.injEq] at hdecode
  obtain ⟨ms, hms, name, hname, -, -, target, htarget, rfl⟩ := hdecode
  have hat := objectAt_of_membersOf hv hms
  intro e he
  simp only [AppSpec.checkRelation, List.mem_append] at he
  rcases he with he | he
  · split at he
    · rw [List.mem_singleton.mp he]
      exact (hat.required (by decide) (by decide) hname).exists
    · exact absurd he List.not_mem_nil
  · exact exists_of_mem_errorIf (hat.required (by decide) (by decide) htarget).exists he

theorem exists_of_mem_checkEntity {spec : AppSpec} {i : Nat} {entity : EntityDef}
    (h : StandsAt document decodeEntity (item "/entities" i) entity) :
    ∀ e ∈ spec.checkEntity i entity, Exists document e.path := by
  have hat := entityAt_of_standsAt h
  intro e he
  rw [AppSpec.checkEntity, List.mem_append] at he
  rcases he with he | he
  · apply exists_of_mem_entries hat.fields _ he
    intro j before field hfield
    exact exists_of_mem_checkField hfield
  · apply exists_of_mem_entries_optional hat.relations _ he
    intro j before relation hrelation
    exact exists_of_mem_checkRelation hrelation

theorem exists_of_mem_checkPage {spec : AppSpec} {before : List PageDef} {page : PageDef}
    (h : StandsAt document decodePage path page) :
    ∀ e ∈ spec.checkPage path before page, Exists document e.path := by
  obtain ⟨v, hv, hdecode⟩ := h
  simp only [decodePage, Option.bind_eq_bind, Option.bind_eq_some_iff, Option.pure_def,
    Option.some.injEq] at hdecode
  obtain ⟨ms, hms, name, hname, type, -, entity, hentity, title, -, fields, hfields, rfl⟩ := hdecode
  have hat := objectAt_of_membersOf hv hms
  intro e he
  rw [AppSpec.checkPage, List.mem_append] at he
  rcases he with he | he
  · exact exists_of_mem_errorIf (hat.required (by decide) (by decide) hname).exists he
  · split at he
    · rw [List.mem_singleton.mp he]
      exact (hat.required (by decide) (by decide) hentity).exists
    · have hnames : ∀ names, fields = some names →
          StandsAt document decodeNames (path ++ "/fields") names :=
        hat.whenSome (by decide) (by decide) hfields
      apply exists_of_mem_entries_optional hnames _ he
      intro j before' selected hselected e' he'
      exact exists_of_mem_errorIf hselected.exists he'

structure PredicateAt (document : Json) (path : String) (predicate : FieldPredicate) : Prop where
  self : Exists document path
  field : Exists document (path ++ "/field")
  op : Exists document (path ++ "/op")
  value : predicate.value.isSome = true → Exists document (path ++ "/value")

theorem predicateAt_of_standsAt {predicate : FieldPredicate}
    (h : StandsAt document decodePredicate path predicate) :
    PredicateAt document path predicate := by
  have hself := h.exists
  obtain ⟨v, hv, hdecode⟩ := h
  simp only [decodePredicate, Option.bind_eq_bind, Option.bind_eq_some_iff, Option.pure_def,
    Option.some.injEq] at hdecode
  obtain ⟨ms, hms, field, hfield, op, hop, value, hvalue, rfl⟩ := hdecode
  have hat := objectAt_of_membersOf hv hms
  refine ⟨hself, (hat.required (by decide) (by decide) hfield).exists,
    (hat.required (by decide) (by decide) hop).exists, ?_⟩
  intro hsome
  obtain ⟨literal, hliteral⟩ := Option.isSome_iff_exists.mp hsome
  exact (hat.whenSome (by decide) (by decide) hvalue literal hliteral).exists

theorem path_of_mem_checkPredicateValue {field : FieldDef} {value : Literal} {e : SpecError}
    (he : e ∈ checkPredicateValue path field value) : e.path = path := by
  unfold checkPredicateValue at he
  split at he
  case h_1 => exact (mem_errorIf he).2
  all_goals first
    | exact absurd he List.not_mem_nil
    | rw [List.mem_singleton.mp he]

theorem exists_of_mem_checkPredicate {entity : EntityDef} {predicate : FieldPredicate}
    (h : StandsAt document decodePredicate path predicate) :
    ∀ e ∈ checkPredicate entity path predicate, Exists document e.path := by
  have hat := predicateAt_of_standsAt h
  intro e he
  unfold checkPredicate at he
  split at he
  · rw [List.mem_singleton.mp he]
    exact hat.field
  split at he
  · rw [List.mem_singleton.mp he]
    exact hat.self
  split at he
  · obtain ⟨hsome, hpath⟩ := mem_errorIf he
    rw [hpath]
    exact hat.value hsome
  split at he
  · rw [List.mem_singleton.mp he]
    exact hat.self
  rename_i value hvalue
  split at he
  · rw [List.mem_singleton.mp he]
    exact hat.op
  · rw [path_of_mem_checkPredicateValue he]
    exact hat.value (by rw [hvalue]; rfl)

theorem exists_of_mem_checkRoles {spec : AppSpec} {roles : Option (List String)} {rolesPath : String}
    (h : ∀ names, roles = some names → StandsAt document decodeNames rolesPath names)
    {e : SpecError} (he : e ∈ spec.checkRoles (roles.getD []) rolesPath) : Exists document e.path := by
  apply exists_of_mem_entries_optional h _ he
  intro i before role hrole e' he'
  exact exists_of_mem_errorIf hrole.exists he'

structure TransitionAt (document : Json) (path : String) (transition : TransitionDef) : Prop where
  name : Exists document (path ++ "/name")
  «from» : Exists document (path ++ "/from")
  «to» : Exists document (path ++ "/to")
  guardRoles : ∀ roles, transition.guard.bind (·.roles) = some roles →
    StandsAt document decodeNames (path ++ "/guard/roles") roles
  require : ∀ predicates, transition.guard.bind (·.require) = some predicates →
    StandsAt document (decodeArray decodePredicate) (path ++ "/guard/require") predicates
  approvalRoles : ∀ roles, transition.approval.bind (·.roles) = some roles →
    StandsAt document decodeNames (path ++ "/approval/roles") roles

structure GuardAt (document : Json) (path : String) (guard : TransitionGuard) : Prop where
  roles : ∀ roles, guard.roles = some roles →
    StandsAt document decodeNames (path ++ "/roles") roles
  require : ∀ predicates, guard.require = some predicates →
    StandsAt document (decodeArray decodePredicate) (path ++ "/require") predicates

theorem guardAt_of_standsAt {guard : TransitionGuard} (h : StandsAt document decodeGuard path guard) :
    GuardAt document path guard := by
  obtain ⟨v, hv, hdecode⟩ := h
  simp only [decodeGuard, Option.bind_eq_bind, Option.bind_eq_some_iff, Option.pure_def,
    Option.some.injEq] at hdecode
  obtain ⟨ms, hms, roles, hroles, require, hrequire, rfl⟩ := hdecode
  have hat := objectAt_of_membersOf hv hms
  exact ⟨hat.whenSome (by decide) (by decide) hroles, hat.whenSome (by decide) (by decide) hrequire⟩

theorem roles_of_standsAt {rule : ApprovalRule} (h : StandsAt document decodeApproval path rule) :
    ∀ roles, rule.roles = some roles → StandsAt document decodeNames (path ++ "/roles") roles := by
  obtain ⟨v, hv, hdecode⟩ := h
  simp only [decodeApproval, Option.bind_eq_bind, Option.bind_eq_some_iff, Option.pure_def,
    Option.some.injEq] at hdecode
  obtain ⟨ms, hms, count, -, roles, hroles, rfl⟩ := hdecode
  exact (objectAt_of_membersOf hv hms).whenSome (by decide) (by decide) hroles

theorem transitionAt_of_standsAt {transition : TransitionDef}
    (h : StandsAt document decodeTransition path transition) :
    TransitionAt document path transition := by
  obtain ⟨v, hv, hdecode⟩ := h
  simp only [decodeTransition, Option.bind_eq_bind, Option.bind_eq_some_iff, Option.pure_def,
    Option.some.injEq] at hdecode
  obtain ⟨ms, hms, name, hname, source, hsource, target, htarget, guard, hguard, approval, happroval,
    rfl⟩ := hdecode
  have hat := objectAt_of_membersOf hv hms
  have hguardAt : ∀ g, guard = some g → GuardAt document (path ++ "/guard") g := by
    intro g hg
    exact guardAt_of_standsAt (hat.whenSome (by decide) (by decide) hguard g hg)
  have happrovalAt : ∀ rule, approval = some rule → ∀ roles, rule.roles = some roles →
      StandsAt document decodeNames (path ++ "/approval" ++ "/roles") roles := by
    intro rule hrule
    exact roles_of_standsAt (hat.whenSome (by decide) (by decide) happroval rule hrule)
  refine ⟨(hat.required (by decide) (by decide) hname).exists,
    (hat.required (by decide) (by decide) hsource).exists,
    (hat.required (by decide) (by decide) htarget).exists, ?_, ?_, ?_⟩
  · intro roles hroles
    obtain ⟨g, hg, hroles⟩ := Option.bind_eq_some_iff.mp hroles
    have hplace := (hguardAt g hg).roles roles hroles
    rwa [String.append_assoc] at hplace
  · intro predicates hpredicates
    obtain ⟨g, hg, hpredicates⟩ := Option.bind_eq_some_iff.mp hpredicates
    have hplace := (hguardAt g hg).require predicates hpredicates
    rwa [String.append_assoc] at hplace
  · intro roles hroles
    obtain ⟨rule, hrule, hroles⟩ := Option.bind_eq_some_iff.mp hroles
    have hplace := happrovalAt rule hrule roles hroles
    rwa [String.append_assoc] at hplace

theorem exists_of_mem_checkTransition {spec : AppSpec} {workflow : WorkflowDef} {entity : EntityDef}
    {states : List String} {before : List TransitionDef} {transition : TransitionDef}
    (h : StandsAt document decodeTransition path transition) :
    ∀ e ∈ spec.checkTransition workflow entity states path before transition,
      Exists document e.path := by
  have hat := transitionAt_of_standsAt h
  intro e he
  simp only [AppSpec.checkTransition, List.mem_append] at he
  rcases he with ((((he | he) | he) | he) | he) | he
  · exact exists_of_mem_errorIf hat.name he
  · have hpath := (mem_errorIf he).2
    rw [hpath, String.append_assoc]
    exact hat.from
  · have hpath := (mem_errorIf he).2
    rw [hpath, String.append_assoc]
    exact hat.to
  · exact exists_of_mem_checkRoles hat.guardRoles he
  · apply exists_of_mem_entries_optional hat.require _ he
    intro k before' predicate hpredicate
    exact exists_of_mem_checkPredicate hpredicate
  · exact exists_of_mem_checkRoles hat.approvalRoles he

theorem exists_of_mem_checkWorkflow {spec : AppSpec} {before : List WorkflowDef}
    {workflow : WorkflowDef} (h : StandsAt document decodeWorkflow path workflow) :
    ∀ e ∈ spec.checkWorkflow path before workflow, Exists document e.path := by
  obtain ⟨v, hv, hdecode⟩ := h
  simp only [decodeWorkflow, Option.bind_eq_bind, Option.bind_eq_some_iff, Option.pure_def,
    Option.some.injEq] at hdecode
  obtain ⟨ms, hms, name, hname, entity, hentity, stateField, hstate, initial, hinitial, transitions,
    htransitions, rfl⟩ := hdecode
  have hat := objectAt_of_membersOf hv hms
  intro e he
  rw [AppSpec.checkWorkflow, List.mem_append] at he
  rcases he with he | he
  · exact exists_of_mem_errorIf (hat.required (by decide) (by decide) hname).exists he
  split at he
  · rw [List.mem_singleton.mp he]
    exact (hat.required (by decide) (by decide) hentity).exists
  split at he
  · rw [List.mem_singleton.mp he]
    exact (hat.required (by decide) (by decide) hstate).exists
  · rcases List.mem_append.mp he with he | he
    · exact exists_of_mem_errorIf (hat.required (by decide) (by decide) hinitial).exists he
    · have hall : StandsAt document (decodeArray decodeTransition) (path ++ "/transitions")
          transitions := hat.required (by decide) (by decide) htransitions
      apply exists_of_mem_entries hall _ he
      intro j before' transition htransition
      exact exists_of_mem_checkTransition htransition

theorem exists_of_mem_checkProposal {spec : AppSpec} {task : AgentTaskDef} {ref : AgentProposalRef}
    (h : StandsAt document decodeProposalRef path ref) :
    ∀ e ∈ spec.checkProposal path task ref, Exists document e.path := by
  have hself := h.exists
  obtain ⟨v, hv, hdecode⟩ := h
  simp only [decodeProposalRef, Option.bind_eq_bind, Option.bind_eq_some_iff, Option.pure_def,
    Option.some.injEq] at hdecode
  obtain ⟨ms, hms, workflow, hworkflow, transition, htransition, rfl⟩ := hdecode
  have hat := objectAt_of_membersOf hv hms
  intro e he
  unfold AppSpec.checkProposal at he
  split at he
  · rw [List.mem_singleton.mp he]
    exact (hat.required (by decide) (by decide) hworkflow).exists
  split at he
  · rw [List.mem_singleton.mp he]
    exact (hat.required (by decide) (by decide) htransition).exists
  · exact exists_of_mem_errorIf hself he

theorem exists_of_mem_checkAgent {spec : AppSpec} {before : List AgentTaskDef} {task : AgentTaskDef}
    (h : StandsAt document decodeAgentTask path task) :
    ∀ e ∈ spec.checkAgent path before task, Exists document e.path := by
  obtain ⟨v, hv, hdecode⟩ := h
  simp only [decodeAgentTask, Option.bind_eq_bind, Option.bind_eq_some_iff, Option.pure_def,
    Option.some.injEq] at hdecode
  obtain ⟨ms, hms, name, hname, -, -, tools, -, proposes, hproposes, rfl⟩ := hdecode
  have hat := objectAt_of_membersOf hv hms
  intro e he
  rw [AppSpec.checkAgent, List.mem_append] at he
  rcases he with he | he
  · exact exists_of_mem_errorIf (hat.required (by decide) (by decide) hname).exists he
  · have hrefs : ∀ refs, proposes = some refs →
        StandsAt document (decodeArray decodeProposalRef) (path ++ "/proposes") refs :=
      hat.whenSome (by decide) (by decide) hproposes
    apply exists_of_mem_entries_optional hrefs _ he
    intro j before' ref href
    exact exists_of_mem_checkProposal href

structure SpecAt (document : Json) (spec : AppSpec) : Prop where
  entities : StandsAt document (decodeArray decodeEntity) "/entities" spec.entities
  pages : ∀ pages, spec.pages = some pages →
    StandsAt document (decodeArray decodePage) "/pages" pages
  workflows : ∀ workflows, spec.workflows = some workflows →
    StandsAt document (decodeArray decodeWorkflow) "/workflows" workflows
  agents : ∀ agents, spec.agents = some agents →
    StandsAt document (decodeArray decodeAgentTask) "/agents" agents

private theorem atRoot {decode : Json → Option α} {x : α}
    (h : StandsAt document decode ("" ++ path) x) : StandsAt document decode path x := by
  rwa [String.empty_append] at h

theorem specAt_of_decodeSpec {spec : AppSpec} (h : decodeSpec document = some spec) :
    SpecAt document spec := by
  simp only [decodeSpec, Option.bind_eq_bind, Option.bind_eq_some_iff, Option.pure_def,
    Option.some.injEq] at h
  obtain ⟨ms, hms, specVersion, -, app, -, entities, hentities, pages, hpages, workflows, hworkflows,
    policies, -, agents, hagents, evidence, -, rfl⟩ := h
  have hat : ObjectAt document "" ms := objectAt_of_membersOf (resolve_empty document) hms
  refine ⟨atRoot (hat.required (by decide) (by decide) hentities), ?_, ?_, ?_⟩
  · intro pages hsome
    exact atRoot (hat.whenSome (by decide) (by decide) hpages pages hsome)
  · intro workflows hsome
    exact atRoot (hat.whenSome (by decide) (by decide) hworkflows workflows hsome)
  · intro agents hsome
    exact atRoot (hat.whenSome (by decide) (by decide) hagents agents hsome)

theorem exists_of_mem_semanticErrors {spec : AppSpec} (h : decodeSpec document = some spec) :
    ∀ e ∈ spec.semanticErrors, Exists document e.path := by
  have hat := specAt_of_decodeSpec h
  intro e he
  simp only [AppSpec.semanticErrors, List.mem_append] at he
  rcases he with ((((he | he) | he) | he) | he) | he
  · apply exists_of_mem_entries hat.entities _ he
    intro i before entity hentity
    exact exists_of_mem_checkEntityName hentity
  · apply exists_of_mem_entries hat.entities _ he
    intro i before entity hentity
    exact exists_of_mem_checkEntity hentity
  · apply exists_of_mem_entries_optional hat.pages _ he
    intro i before page hpage
    exact exists_of_mem_checkPage hpage
  · apply exists_of_mem_entries_optional hat.workflows _ he
    intro i before workflow hworkflow
    exact exists_of_mem_checkWorkflow hworkflow
  · apply exists_of_mem_entries_optional hat.agents _ he
    intro i before task htask
    exact exists_of_mem_checkAgent htask
  · obtain ⟨hcondition, hpath⟩ := mem_errorIf he
    rw [hpath]
    cases hagents : spec.agents with
    | none => simp [hagents] at hcondition
    | some agents => exact (hat.agents agents hagents).exists

/-- Every error of a rejected object with a supported version points at a place of the object, when
those of the schema do. -/
theorem error_paths_exist {schemaErrors : Json → List SpecError} {ms : List (Text × Json)}
    (hschema : ∀ e ∈ schemaErrors (.obj ms), Exists (.obj ms) e.path)
    (hversion : (supportedVersion ms).isSome = true) {errors : List SpecError}
    (hrejected : validateSpec schemaErrors (.obj ms) = .error errors) :
    ∀ e ∈ errors, Exists (.obj ms) e.path := by
  obtain ⟨version, hsupported⟩ := Option.isSome_iff_exists.mp hversion
  simp only [validateSpec, hsupported] at hrejected
  cases hstructural : structural (.obj ms) with
  | none =>
    simp only [hstructural] at hrejected
    obtain rfl := Except.error.inj hrejected
    exact hschema
  | some spec =>
    have hdecode := (Option.filter_eq_some_iff.mp hstructural).1
    simp only [hstructural] at hrejected
    split at hrejected
    · exact absurd hrejected (by simp)
    · obtain rfl := Except.error.inj hrejected
      exact exists_of_mem_semanticErrors hdecode

def stringMember (key value : String) : Text × Json := (ofString key, .scalar (.str (ofString value)))

/-- Vendors with an enum that lists no values. -/
def rankedVendors : List (Text × Json) :=
  [stringMember "specVersion" "0.1",
    (ofString "app", .obj [stringMember "name" "Vendors", stringMember "slug" "vendors",
      stringMember "version" "1.0.0"]),
    (ofString "entities", .arr [.obj [stringMember "name" "Vendor",
      (ofString "fields", .arr [.obj [stringMember "name" "rank", stringMember "type" "enum"]])]])]

def rankWithoutValues : SpecError where
  code := .ERR_BAD_ENUM
  path := "/entities/0/fields/0"
  message := ofString "enum field " ++ quoted "rank" ++ ofString " must declare values"

theorem error_paths_exist_rank :
    validateSpec (fun _ => []) (.obj rankedVendors) = .error [rankWithoutValues] ∧
      ∀ e ∈ [rankWithoutValues], Exists (.obj rankedVendors) e.path := by
  have hrejected : validateSpec (fun _ => []) (.obj rankedVendors) = .error [rankWithoutValues] := by
    rfl
  refine ⟨hrejected, ?_⟩
  exact error_paths_exist (fun _ he => absurd he List.not_mem_nil) (by decide +kernel) hrejected

end OpenRupiv.Spec
