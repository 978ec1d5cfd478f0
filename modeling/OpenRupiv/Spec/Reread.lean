import OpenRupiv.Js.Access
import OpenRupiv.Js.Indent
import OpenRupiv.Spec.Document

/-!
# Documents that were printed

A document that decodes as a spec is printed and parsed.  What is read back shows the names, states
and counts of the spec under the same keys.
-/

namespace OpenRupiv.Spec

open Js

variable {α : Type}

/-- What is read back from the print of a value. -/
def reprint (v : Json) : Json := v.rebuild Scalar.printed .own

/-- The value was read back from the print of one that decodes as `x`. -/
def Shows (decode : Json → Option α) (w : Json) (x : α) : Prop :=
  ∃ v, v.distinctKeys = true ∧ decode v = some x ∧ w = reprint v

def nameValue (s : String) : Json := .scalar (.str (ofString s))

theorem ofString_scalarValues {t : Text} (h : wellFormed t = true) :
    ofString (String.ofList (scalarValues t)) = t := by
  have key : (scalarValues t).flatMap utf16 = t := by
    induction t using scalarValues.induct with
    | case1 => rfl
    | case2 u =>
      simp only [wellFormed, Bool.and_eq_true, Bool.not_eq_true'] at h
      simp [scalarValues, h, utf16_unit h.1 h.2]
    | case3 u v rest hu hv ih =>
      have hrest : wellFormed rest = true := by simpa [wellFormed, hu, hv] using h
      simp [scalarValues, hu, hv, utf16_pairCode hu hv, ih hrest]
    | case4 u v rest hu hv ih => simp [wellFormed, hu, hv] at h
    | case5 u v rest hu hl ih => simp [wellFormed, hu, hl] at h
    | case6 u v rest hu hl ih =>
      have hrest : wellFormed (v :: rest) = true := by simpa [wellFormed, hu, hl] using h
      simp only [Bool.not_eq_true] at hu hl
      simp [scalarValues, hu, hl, utf16_unit hu hl, ih hrest]
  rw [ofString, String.toList_ofList, key]

theorem shows_name {w : Json} {s : String} (h : Shows decodeName w s) : w = nameValue s := by
  obtain ⟨v, -, hdecode, rfl⟩ := h
  unfold decodeName at hdecode
  split at hdecode
  · obtain ⟨hwell, htext⟩ := Option.ite_none_right_eq_some.mp hdecode
    rw [reprint, Json.rebuild_scalar, nameValue, ← Option.some.inj htext, ofString_scalarValues hwell]
    rfl
  · exact absurd hdecode (by simp)

theorem shows_oneOf {w : Json} {print : α → String} {values : List α} {x : α}
    (h : Shows (decodeOneOf print values) w x) : w = nameValue (print x) := by
  obtain ⟨v, hv, hdecode, rfl⟩ := h
  obtain ⟨s, hs, hfind⟩ := Option.bind_eq_some_iff.mp hdecode
  have hprint : print x = s := by simpa using List.find?_some hfind
  rw [hprint]
  exact shows_name ⟨v, hv, hs, rfl⟩

private theorem property_reprint {allowed : List String} {v : Json} {ms : List (Text × Json)}
    (hv : v.distinctKeys = true) (hms : membersOf allowed v = some ms) (key : String) :
    property (some (reprint v)) key = some ((ms.lookup (ofString key)).map reprint) ∧
      ∀ w, ms.lookup (ofString key) = some w → w.distinctKeys = true := by
  cases v with
  | obj members =>
    obtain ⟨-, hmembers⟩ := Option.ite_none_right_eq_some.mp hms
    obtain rfl := Option.some.inj hmembers
    rw [Json.distinctKeys_obj] at hv
    constructor
    · have hlookup := lookup_perm (perm_ownEntries members).symm hv.1 (ofString key)
      rw [reprint, Json.rebuild_obj, property, lookup_mapValues, hlookup]
      rfl
    · intro w hw
      exact hv.2 _ (mem_of_lookup hw)
  | _ => exact absurd hms (by simp [membersOf])

theorem property_required {allowed : List String} {v : Json} {ms : List (Text × Json)}
    (hv : v.distinctKeys = true) (hms : membersOf allowed v = some ms) {key : String}
    {decode : Json → Option α} {x : α} (hx : required ms key decode = some x) :
    ∃ w, property (some (reprint v)) key = some (some w) ∧ Shows decode w x := by
  obtain ⟨w, hw, hdecode⟩ := Option.bind_eq_some_iff.mp hx
  obtain ⟨hget, hdistinct⟩ := property_reprint hv hms key
  refine ⟨reprint w, ?_, w, hdistinct w hw, hdecode, rfl⟩
  rw [hget, hw, Option.map_some]

theorem property_optional {allowed : List String} {v : Json} {ms : List (Text × Json)}
    (hv : v.distinctKeys = true) (hms : membersOf allowed v = some ms) {key : String}
    {decode : Json → Option α} {x : Option α} (hx : optional ms key decode = some x) :
    ∃ w, property (some (reprint v)) key = some w ∧ Option.Rel (Shows decode) w x := by
  obtain ⟨hget, hdistinct⟩ := property_reprint hv hms key
  unfold optional at hx
  split at hx
  · rename_i hnone
    obtain rfl := Option.some.inj hx
    exact ⟨none, by rw [hget, hnone, Option.map_none], .none⟩
  · rename_i w hw
    obtain ⟨y, hdecode, rfl⟩ := Option.map_eq_some_iff.mp hx
    exact ⟨some (reprint w), by rw [hget, hw, Option.map_some],
      .some ⟨w, hdistinct w hw, hdecode, rfl⟩⟩

theorem shows_array {decode : Json → Option α} {w : Json} {xs : List α}
    (h : Shows (decodeArray decode) w xs) :
    ∃ items, w = .arr items ∧ List.Forall₂ (Shows decode) items xs := by
  obtain ⟨v, hv, hdecode, rfl⟩ := h
  cases v with
  | arr items =>
    rw [Json.distinctKeys_arr] at hv
    refine ⟨items.map reprint, by rw [reprint, Json.rebuild_arr]; rfl, ?_⟩
    rw [decodeArray] at hdecode
    induction items generalizing xs with
    | nil =>
      obtain rfl := Option.some.inj hdecode
      exact .nil
    | cons v items ih =>
      rw [List.mapM_cons] at hdecode
      obtain ⟨x, hx, hrest⟩ := Option.bind_eq_some_iff.mp hdecode
      obtain ⟨ys, hys, hxs⟩ := Option.bind_eq_some_iff.mp hrest
      obtain rfl := Option.some.inj hxs
      exact .cons ⟨v, hv v (by simp), hx, rfl⟩ (ih (fun w hw => hv w (by simp [hw])) hys)
  | _ => exact absurd hdecode (by simp [decodeArray])

/-- `w.key ?? []` shows the items. -/
def ListShown (decode : Json → Option α) (w : Json) (key : String) (xs : List α) : Prop :=
  ∃ v items, property (some w) key = some v ∧ ListAt v items ∧
    List.Forall₂ (Shows decode) items xs

theorem listShown_of_required {allowed : List String} {v : Json} {ms : List (Text × Json)}
    (hv : v.distinctKeys = true) (hms : membersOf allowed v = some ms) {key : String}
    {decode : Json → Option α} {xs : List α} (hx : required ms key (decodeArray decode) = some xs) :
    ListShown decode (reprint v) key xs := by
  obtain ⟨w, hproperty, hw⟩ := property_required hv hms hx
  obtain ⟨items, rfl, hitems⟩ := shows_array hw
  exact ⟨_, items, hproperty, .inr rfl, hitems⟩

theorem listShown_of_optional {allowed : List String} {v : Json} {ms : List (Text × Json)}
    (hv : v.distinctKeys = true) (hms : membersOf allowed v = some ms) {key : String}
    {decode : Json → Option α} {xs : Option (List α)}
    (hx : optional ms key (decodeArray decode) = some xs) :
    ListShown decode (reprint v) key (xs.getD []) := by
  obtain ⟨w, hproperty, hw⟩ := property_optional hv hms hx
  cases hw with
  | none => exact ⟨none, [], hproperty, .inl ⟨rfl, rfl⟩, .nil⟩
  | some hw =>
    obtain ⟨items, rfl, hitems⟩ := shows_array hw
    exact ⟨_, items, hproperty, .inr rfl, hitems⟩

theorem property_name {allowed : List String} {v : Json} {ms : List (Text × Json)}
    (hv : v.distinctKeys = true) (hms : membersOf allowed v = some ms) {key s : String}
    (hx : required ms key decodeName = some s) :
    property (some (reprint v)) key = some (some (nameValue s)) := by
  obtain ⟨w, hproperty, hw⟩ := property_required hv hms hx
  rw [hproperty, shows_name hw]

theorem truthy_of_membersOf {allowed : List String} {v : Json} {ms : List (Text × Json)}
    (hms : membersOf allowed v = some ms) : truthy (some (reprint v)) = true := by
  cases v with
  | obj members =>
    rw [reprint, Json.rebuild_obj]
    rfl
  | _ => exact absurd hms (by simp [membersOf])

structure FieldShown (w : Json) (field : FieldDef) : Prop where
  object : truthy (some w) = true
  name : property (some w) "name" = some (some (nameValue field.name))
  type : property (some w) "type" = some (some (nameValue field.type.print))
  values : ListShown decodeName w "values" (field.values.getD [])

theorem fieldShown {w : Json} {field : FieldDef} (h : Shows decodeField w field) :
    FieldShown w field := by
  obtain ⟨v, hv, hdecode, rfl⟩ := h
  simp only [decodeField, Option.bind_eq_bind, Option.bind_eq_some_iff, Option.pure_def,
    Option.some.injEq] at hdecode
  obtain ⟨ms, hms, name, hname, type, htype, isRequired, -, unique, -, values, hvalues, entity, -,
    default, -, rfl⟩ := hdecode
  obtain ⟨t, hproperty, ht⟩ := property_required hv hms htype
  have htypeProperty : property (some (reprint v)) "type" = some (some (nameValue type.print)) := by
    rw [hproperty, shows_oneOf ht]
  exact ⟨truthy_of_membersOf hms, property_name hv hms hname, htypeProperty,
    listShown_of_optional hv hms hvalues⟩

theorem relationShown {w : Json} {relation : RelationDef} (h : Shows decodeRelation w relation) :
    property (some w) "name" = some (some (nameValue relation.name)) := by
  obtain ⟨v, hv, hdecode, rfl⟩ := h
  simp only [decodeRelation, Option.bind_eq_bind, Option.bind_eq_some_iff, Option.pure_def,
    Option.some.injEq] at hdecode
  obtain ⟨ms, hms, name, hname, -, -, target, -, rfl⟩ := hdecode
  exact property_name hv hms hname

structure EntityShown (w : Json) (entity : EntityDef) : Prop where
  object : truthy (some w) = true
  name : property (some w) "name" = some (some (nameValue entity.name))
  fields : ListShown decodeField w "fields" entity.fields
  relations : ListShown decodeRelation w "relations" (entity.relations.getD [])

theorem entityShown {w : Json} {entity : EntityDef} (h : Shows decodeEntity w entity) :
    EntityShown w entity := by
  obtain ⟨v, hv, hdecode, rfl⟩ := h
  simp only [decodeEntity, Option.bind_eq_bind, Option.bind_eq_some_iff, Option.pure_def,
    Option.some.injEq] at hdecode
  obtain ⟨ms, hms, name, hname, -, -, fields, hfields, relations, hrelations, rfl⟩ := hdecode
  exact ⟨truthy_of_membersOf hms, property_name hv hms hname, listShown_of_required hv hms hfields,
    listShown_of_optional hv hms hrelations⟩

/-- The number under `count` is read back without its sign if it is zero. -/
theorem approvalShown {w : Json} {rule : ApprovalRule} (h : Shows decodeApproval w rule) :
    ∃ n, property (some w) "count" = some (some (.scalar (.num n))) ∧
      natOfNum n = some rule.count := by
  obtain ⟨v, hv, hdecode, rfl⟩ := h
  simp only [decodeApproval, Option.bind_eq_bind, Option.bind_eq_some_iff, Option.pure_def,
    Option.some.injEq] at hdecode
  obtain ⟨ms, hms, count, hcount, roles, -, rfl⟩ := hdecode
  obtain ⟨w, hproperty, v', -, hv', rfl⟩ := property_required hv hms hcount
  unfold decodeCount at hv'
  split at hv'
  · rename_i n
    cases n with
    | infinite neg => exact absurd hv' (by simp [natOfNum])
    | zero neg => exact ⟨_, hproperty, hv'⟩
    | finite d => exact ⟨_, hproperty, hv'⟩
  · exact absurd hv' (by simp)

structure TransitionShown (w : Json) (transition : TransitionDef) : Prop where
  source : property (some w) "from" = some (some (nameValue transition.from))
  target : property (some w) "to" = some (some (nameValue transition.to))
  approval : ∃ v, property (some w) "approval" = some v ∧
    Option.Rel (Shows decodeApproval) v transition.approval

theorem transitionShown {w : Json} {transition : TransitionDef}
    (h : Shows decodeTransition w transition) : TransitionShown w transition := by
  obtain ⟨v, hv, hdecode, rfl⟩ := h
  simp only [decodeTransition, Option.bind_eq_bind, Option.bind_eq_some_iff, Option.pure_def,
    Option.some.injEq] at hdecode
  obtain ⟨ms, hms, name, -, source, hsource, target, htarget, guard, -, approval, happroval, rfl⟩ :=
    hdecode
  exact ⟨property_name hv hms hsource, property_name hv hms htarget,
    property_optional hv hms happroval⟩

structure WorkflowShown (w : Json) (workflow : WorkflowDef) : Prop where
  entity : property (some w) "entity" = some (some (nameValue workflow.entity))
  stateField : property (some w) "stateField" = some (some (nameValue workflow.stateField))
  initial : property (some w) "initial" = some (some (nameValue workflow.initial))
  transitions : ListShown decodeTransition w "transitions" workflow.transitions

theorem workflowShown {w : Json} {workflow : WorkflowDef} (h : Shows decodeWorkflow w workflow) :
    WorkflowShown w workflow := by
  obtain ⟨v, hv, hdecode, rfl⟩ := h
  simp only [decodeWorkflow, Option.bind_eq_bind, Option.bind_eq_some_iff, Option.pure_def,
    Option.some.injEq] at hdecode
  obtain ⟨ms, hms, name, -, entity, hentity, stateField, hstateField, initial, hinitial, transitions,
    htransitions, rfl⟩ := hdecode
  exact ⟨property_name hv hms hentity, property_name hv hms hstateField,
    property_name hv hms hinitial, listShown_of_required hv hms htransitions⟩

structure SpecShown (w : Json) (spec : AppSpec) : Prop where
  object : ∃ ms, w = .obj ms
  specVersion : property (some w) "specVersion" = some (some (nameValue spec.specVersion.text))
  entities : ListShown decodeEntity w "entities" spec.entities
  workflows : ListShown decodeWorkflow w "workflows" (spec.workflows.getD [])

theorem specShown {w : Json} {spec : AppSpec} (h : Shows decodeSpec w spec) : SpecShown w spec := by
  obtain ⟨v, hv, hdecode, rfl⟩ := h
  simp only [decodeSpec, Option.bind_eq_bind, Option.bind_eq_some_iff, Option.pure_def,
    Option.some.injEq] at hdecode
  obtain ⟨ms, hms, specVersion, hspecVersion, app, -, entities, hentities, pages, -, workflows,
    hworkflows, policies, -, agents, -, evidence, -, rfl⟩ := hdecode
  obtain ⟨t, hproperty, ht⟩ := property_required hv hms hspecVersion
  have hobject : ∃ ms, reprint v = .obj ms := by
    cases v with
    | obj members => exact ⟨_, Json.rebuild_obj members⟩
    | _ => exact absurd hms (by simp [membersOf])
  have hversion : property (some (reprint v)) "specVersion" =
      some (some (nameValue specVersion.text)) := by
    rw [hproperty, shows_oneOf ht]
  exact ⟨hobject, hversion, listShown_of_required hv hms hentities,
    listShown_of_optional hv hms hworkflows⟩

end OpenRupiv.Spec
