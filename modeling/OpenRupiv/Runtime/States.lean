import OpenRupiv.Runtime.Registration
import Mathlib.Logic.Relation

/-!
# State columns

The state of a workflow is kept in a column of its entity.  A created record starts in the initial
state, and nothing but the transitions of the workflows on that column changes it.
-/

namespace OpenRupiv.Runtime

open Js Lib Spec Audit

theorem setAll_of_not_mem {row : Row} {values : List (String × SqlValue)} {column : String}
    (h : column ∉ values.map Prod.fst) : setAll row values column = row column := by
  induction values generalizing row with
  | nil => rfl
  | cons e values ih =>
    rw [List.map_cons, List.mem_cons, not_or] at h
    show setAll (Function.update row e.1 (some e.2)) values column = _
    rw [ih h.2, Function.update_of_ne h.1]

theorem setAll_of_mem {row : Row} {values : List (String × SqlValue)}
    (hnodup : (values.map Prod.fst).Nodup) {e : String × SqlValue} (he : e ∈ values) :
    setAll row values e.1 = some e.2 := by
  induction values generalizing row with
  | nil => exact absurd he List.not_mem_nil
  | cons d values ih =>
    rw [List.map_cons, List.nodup_cons] at hnodup
    show setAll (Function.update row d.1 (some d.2)) values e.1 = _
    rcases List.mem_cons.mp he with rfl | he
    · rw [setAll_of_not_mem hnodup.1, Function.update_self]
    · exact ih hnodup.2 he

/-- The columns keep their names, each with what it makes of its parameter. -/
theorem encodeAll_eq_some {pg : Postgres} {table : String} {values : List (String × Scalar)}
    {stored : List (String × SqlValue)} (h : encodeAll pg table values = some stored) :
    List.Forall₂ (fun e d => d.1 = e.1 ∧ pg.encode table e.1 e.2 = some d.2) values stored := by
  induction values generalizing stored with
  | nil =>
    rw [← Option.some.inj h]
    exact .nil
  | cons e values ih =>
    simp only [encodeAll, List.mapM_cons, Option.bind_eq_bind, Option.bind_eq_some_iff,
      Option.map_eq_some_iff, Option.pure_def, Option.some.injEq] at h
    obtain ⟨d, ⟨v, hv, rfl⟩, rest, hrest, rfl⟩ := h
    exact .cons ⟨rfl, hv⟩ (ih hrest)

theorem keys_encodeAll {pg : Postgres} {table : String} {values : List (String × Scalar)}
    {stored : List (String × SqlValue)} (h : encodeAll pg table values = some stored) :
    stored.map Prod.fst = values.map Prod.fst := by
  have hall := encodeAll_eq_some h
  clear h
  induction hall with
  | nil => rfl
  | cons hd _ ih => rw [List.map_cons, List.map_cons, hd.1, ih]

theorem forall₂_mem_left {α β : Type} {R : α → β → Prop} {xs : List α} {ys : List β}
    (h : List.Forall₂ R xs ys) {x : α} (hx : x ∈ xs) : ∃ y ∈ ys, R x y := by
  induction h with
  | nil => exact absurd hx List.not_mem_nil
  | @cons a b xs ys hab _ ih =>
    rcases List.mem_cons.mp hx with rfl | hx
    · exact ⟨b, List.mem_cons_self, hab⟩
    · obtain ⟨y, hy, hxy⟩ := ih hx
      exact ⟨y, List.mem_cons_of_mem _ hy, hxy⟩

/-- What the migration of an app makes of its columns: enum columns are text. -/
structure Migrated (pg : Postgres) (spec : AppSpec) : Prop where
  enum_text : ∀ entity ∈ spec.entities, ∀ field ∈ entity.fields, field.type = .enum →
    ∀ s v, pg.encode (entityTable entity.name) (columnFor field) (.str s) = some v → v = .str s

/-- A field of the entity that keeps the state of a workflow. -/
structure IsStateField (spec : AppSpec) (entity : EntityDef) (name : String) : Prop where
  mem : entity ∈ spec.entities
  workflow : ∃ workflow ∈ spec.workflows.getD [], workflow.entity = entity.name ∧
    workflow.stateField = name

variable {spec : AppSpec} {entity : EntityDef} {name : String}

theorem entity_unique (h : spec.valid = true) {other : EntityDef} (he : entity ∈ spec.entities)
    (ho : other ∈ spec.entities) (hname : entity.name = other.name) : entity = other :=
  List.inj_on_of_nodup_map (AppSpec.nodup_entityNames h) he ho hname

namespace IsStateField

theorem field (hs : IsStateField spec entity name) (h : spec.valid = true) :
    ∃ field ∈ entity.fields, field.name = name ∧ field.type = .enum ∧
      columnFor field = toSnakeCase name := by
  obtain ⟨workflow, hw, hentity, hname⟩ := hs.workflow
  obtain ⟨owner, states, hbound⟩ := AppSpec.boundTo_of_mem h hw
  have howner := entity_unique h hbound.mem hs.mem (hbound.name_eq.trans hentity)
  subst howner
  obtain ⟨field, hfield, hfieldName, htype, -⟩ := hbound.stateField
  refine ⟨field, hfield, hfieldName.trans hname, htype, ?_⟩
  simp [columnFor, htype, hfieldName, hname]

theorem mem_stateFields (hs : IsStateField spec entity name) :
    ∃ workflow ∈ spec.workflows.getD [], workflow.entity = entity.name ∧
      workflow.stateField = name ∧
      (name, workflow.initial) ∈ (buildEntityModel spec entity).stateFields := by
  obtain ⟨workflow, hw, hentity, hname⟩ := hs.workflow
  have hmem : workflow ∈ (buildEntityModel spec entity).workflows :=
    List.mem_filter.mpr ⟨hw, by simpa using hentity⟩
  have hkey : name ∈ (buildEntityModel spec entity).stateFields.map Prod.fst := by
    apply mem_keys_newMap.mpr
    rw [List.map_map]
    exact List.mem_map.mpr ⟨workflow, hmem, hname⟩
  obtain ⟨e, he, hkey⟩ := List.mem_map.mp hkey
  obtain ⟨last, hlast, heq⟩ := List.mem_map.mp (mem_newMap he)
  obtain ⟨hlast, hlastEntity⟩ := List.mem_filter.mp hlast
  have hlastName : last.stateField = name := by
    rw [← hkey, ← heq]
  refine ⟨last, hlast, by simpa using hlastEntity, hlastName, ?_⟩
  rw [← hlastName, heq]
  exact he

theorem columnFor_ne (hs : IsStateField spec entity name) (h : spec.valid = true)
    (hc : Compiler.compiles spec = true) {field : FieldDef} (hf : field ∈ entity.fields)
    (hne : field.name ≠ name) : columnFor field ≠ toSnakeCase name := by
  obtain ⟨owner, howner, hname, -, hcolumn⟩ := hs.field h
  rw [← hcolumn]
  intro heq
  apply hne
  rw [List.inj_on_of_nodup_map (nodup_columns hc hs.mem) hf howner heq, hname]

theorem column_not_reserved (hs : IsStateField spec entity name) (h : spec.valid = true)
    (hc : Compiler.compiles spec = true) : toSnakeCase name ∉ Compiler.RESERVED_COLUMNS := by
  obtain ⟨field, hfield, -, -, hcolumn⟩ := hs.field h
  rw [← hcolumn]
  exact Runtime.column_not_reserved hc hs.mem hfield

theorem inj (hs : IsStateField spec entity name) (h : spec.valid = true)
    (hc : Compiler.compiles spec = true) {name' : String} (hs' : IsStateField spec entity name')
    (heq : toSnakeCase name = toSnakeCase name') : name = name' := by
  obtain ⟨field, hfield, hname, -, hcolumn⟩ := hs.field h
  by_contra hne
  apply hs'.columnFor_ne h hc hfield
  · rw [hname]
    exact hne
  · rw [hcolumn, heq]

end IsStateField

namespace EntityRequest

variable {r : EntityRequest} {host : Host} {columns : List (String × Scalar)}

theorem mem_columns {values : List (String × Scalar)} {e : String × Scalar} :
    e ∈ r.columns values ↔ ∃ d ∈ values, ∃ field,
      r.model.fieldByName.lookup d.1 = some field ∧ e = (columnFor field, d.2) := by
  simp only [columns, List.mem_filterMap, Option.map_eq_some_iff]
  constructor
  · intro ⟨d, hd, field, hfield, heq⟩
    exact ⟨d, hd, field, hfield, heq.symm⟩
  · intro ⟨d, hd, field, hfield, heq⟩
    exact ⟨d, hd, field, hfield, heq.symm⟩

theorem prepareInsert_eq_ok (h : r.prepareInsert host = .ok columns) :
    ∃ data, r.validated host .create = .ok data ∧ columns = r.insertColumns data := by
  simp only [prepareInsert, bind, Except.bind] at h
  split at h
  · exact absurd h (by simp)
  rename_i data hdata
  split at h
  · exact absurd h (by simp)
  split at h
  · exact absurd h (by simp)
  · exact ⟨data, hdata, (Except.ok.inj h).symm⟩

theorem prepareUpdate_eq_ok (h : r.prepareUpdate host = .ok columns) :
    ∃ data, r.validated host .update = .ok data ∧ columns = r.columns data := by
  simp only [prepareUpdate, bind, Except.bind] at h
  split at h
  · exact absurd h (by simp)
  split at h
  · exact absurd h (by simp)
  rename_i data hdata
  split at h
  · exact absurd h (by simp)
  split at h
  · exact absurd h (by simp)
  · exact ⟨data, hdata, (Except.ok.inj h).symm⟩

theorem stateColumn_not_mem (hmodel : r.model = buildEntityModel spec entity)
    (hs : IsStateField spec entity name) (h : spec.valid = true)
    (hc : Compiler.compiles spec = true) {mode : Mode} {data : List (String × Scalar)}
    (hdata : r.validated host mode = .ok data) :
    toSnakeCase name ∉ (r.columns data).map Prod.fst := by
  intro hmem
  obtain ⟨e, he, hcolumn⟩ := List.mem_map.mp hmem
  obtain ⟨d, hd, field, hfield, rfl⟩ := mem_columns.mp he
  obtain ⟨-, hstate⟩ := field_of_mem_validateBody hdata hd
  rw [hmodel, lookup_fieldByName] at hfield
  have hname : field.name = d.1 := by simpa using List.find?_some hfield
  have hmemField : field ∈ entity.fields := List.mem_reverse.mp (List.mem_of_find?_eq_some hfield)
  obtain ⟨workflow, -, -, -, hinitial⟩ := hs.mem_stateFields
  apply hs.columnFor_ne h hc hmemField _ hcolumn
  intro heq
  apply hstate
  rw [hmodel, ← hname, heq]
  exact List.mem_map_of_mem hinitial

/-- The state of a created record is the initial state of a workflow on the field, whatever the
body is. -/
theorem created_state (hmodel : r.model = buildEntityModel spec entity)
    (hs : IsStateField spec entity name) (h : spec.valid = true) {pg : Postgres}
    (hpg : Migrated pg spec) {data : List (String × Scalar)} {stored : List (String × SqlValue)}
    (hnodup : ((r.insertColumns data).map Prod.fst).Nodup)
    (hstored : encodeAll pg r.table (r.insertColumns data) = some stored) (row : Row) :
    ∃ workflow ∈ spec.workflows.getD [], workflow.entity = entity.name ∧
      workflow.stateField = name ∧
      setAll row stored (toSnakeCase name) = some (.str (ofString workflow.initial)) := by
  obtain ⟨workflow, hw, hentity, hstate, hinitial⟩ := hs.mem_stateFields
  obtain ⟨field, hfield, hname, htype, hcolumn⟩ := hs.field h
  refine ⟨workflow, hw, hentity, hstate, ?_⟩
  have hmem : (toSnakeCase name, Scalar.str (ofString workflow.initial)) ∈ r.insertColumns data := by
    apply List.mem_append_left
    apply mem_columns.mpr
    refine ⟨(name, .str (ofString workflow.initial)), ?_, field, ?_, by rw [hcolumn]⟩
    · rw [hmodel]
      exact List.mem_map.mpr ⟨_, hinitial, rfl⟩
    · rw [hmodel, lookup_fieldByName, ← hname]
      exact AppSpec.fieldByName_eq h hs.mem hfield
  obtain ⟨d, hd, hkey, hencode⟩ := forall₂_mem_left (encodeAll_eq_some hstored) hmem
  have htable : r.table = entityTable entity.name := by rw [table, hmodel]; rfl
  rw [htable, ← hcolumn] at hencode
  have hvalue := hpg.enum_text entity hs.mem field hfield htype _ _ hencode
  rw [← keys_encodeAll hstored] at hnodup
  have hset := @setAll_of_mem row _ hnodup _ hd
  rwa [hkey, hvalue] at hset

end EntityRequest

section Created

variable {pg : Postgres} {host : Host} {r : EntityRequest} {columns : List (String × Scalar)}
  {choice : Choice} {κ : Contents} {row : Row} {ws : List Write}

/-- The state of the row that an `INSERT` returns. -/
theorem inserted_state (h : spec.valid = true) (hpg : Migrated pg spec)
    (hmodel : r.model = buildEntityModel spec entity) (hs : IsStateField spec entity name)
    (hprepare : r.prepareInsert host = .ok columns)
    (hinsert : (Stmt.insertRecord r.table columns).exec pg choice κ = some (some row, ws)) :
    ∃ workflow ∈ spec.workflows.getD [], workflow.entity = entity.name ∧
      workflow.stateField = name ∧
      row (toSnakeCase name) = some (.str (ofString workflow.initial)) := by
  obtain ⟨data, -, rfl⟩ := r.prepareInsert_eq_ok hprepare
  simp only [Stmt.exec, Option.bind_eq_bind, Option.bind_eq_some_iff, Option.pure_def,
    Option.some.injEq, Prod.mk.injEq, Option.guard_eq_some'] at hinsert
  obtain ⟨_, hnodup, stored, hstored, -, -, rfl, -⟩ := hinsert
  exact EntityRequest.created_state hmodel hs h hpg hnodup hstored _

/-- A created record is in the initial state of every workflow exactly when the workflows on one
field agree on it. -/
theorem created_in_initial_states_iff (h : spec.valid = true) (hpg : Migrated pg spec)
    (he : entity ∈ spec.entities) (hmodel : r.model = buildEntityModel spec entity)
    (hprepare : r.prepareInsert host = .ok columns)
    (hinsert : (Stmt.insertRecord r.table columns).exec pg choice κ = some (some row, ws)) :
    (∀ workflow ∈ r.model.workflows, row (toSnakeCase workflow.stateField) =
        some (.str (ofString workflow.initial))) ↔
      ∀ workflow ∈ r.model.workflows, ∀ other ∈ r.model.workflows,
        workflow.stateField = other.stateField → workflow.initial = other.initial := by
  rw [hmodel]
  constructor
  · intro hall workflow hw other ho hstate
    have hvalue := hall workflow hw
    rw [hstate, hall other ho] at hvalue
    simpa using hvalue.symm
  · intro hagree workflow hw
    obtain ⟨hmem, hentity⟩ := List.mem_filter.mp hw
    have hs : IsStateField spec entity workflow.stateField :=
      ⟨he, workflow, hmem, by simpa using hentity, rfl⟩
    obtain ⟨other, ho, hoEntity, hoState, hvalue⟩ :=
      inserted_state h hpg hmodel hs hprepare hinsert
    have hother : other ∈ (buildEntityModel spec entity).workflows :=
      List.mem_filter.mpr ⟨ho, by simpa using hoEntity⟩
    rw [hvalue, hagree workflow hw other hother hoState.symm]

theorem migrated_postgresText (spec : AppSpec) : Migrated postgresText spec where
  enum_text := by
    intro entity _ field _ _ s v hv
    exact (Option.some.inj hv).symm

def vendorColumns : List (String × Scalar) :=
  [("status", .str (ofString "draft")), ("risk", .str (ofString "open")),
    ("name", .str (ofString "Acme"))]

theorem created_in_initial_states_vendors :
    (∀ workflow ∈ (createVendor vendorApp).model.workflows,
      draftVendor (toSnakeCase workflow.stateField) = some (.str (ofString workflow.initial))) ↔
      ∀ workflow ∈ (createVendor vendorApp).model.workflows,
        ∀ other ∈ (createVendor vendorApp).model.workflows,
          workflow.stateField = other.stateField → workflow.initial = other.initial :=
  @created_in_initial_states_iff _ vendor postgresText plainHost
    (createVendor vendorApp) vendorColumns untroubled noVendor
    draftVendor [.insertRow "vendor" vendorId draftVendor] valid_vendorApp (migrated_postgresText _)
    (by decide) rfl rfl rfl

/-- Another workflow on the status, for vendors that are approved. -/
def vendorRenewal : WorkflowDef :=
  { vendorApproval with
    name := "vendor-renewal"
    initial := "approved"
    transitions := [{ name := "renew", «from» := "approved", «to» := "draft" }] }

/-- Of two initial states on one field a record can only have one. -/
theorem initial_states_disagree :
    ¬∀ (spec : AppSpec) (entity : EntityDef) (pg : Postgres) (host : Host) (r : EntityRequest)
      (columns : List (String × Scalar)) (choice : Choice) (κ : Contents) (row : Row)
      (ws : List Write), spec.valid = true → Compiler.compiles spec = true → Migrated pg spec →
      entity ∈ spec.entities → r.model = buildEntityModel spec entity →
      r.prepareInsert host = .ok columns →
      (Stmt.insertRecord r.table columns).exec pg choice κ = some (some row, ws) →
      ∀ workflow ∈ r.model.workflows, row (toSnakeCase workflow.stateField) =
        some (.str (ofString workflow.initial)) := by
  intro claim
  have hstate := claim (vendors [vendorRenewal, vendorApproval, riskReview]) vendor postgresText
    plainHost (createVendor (vendors [vendorRenewal, vendorApproval, riskReview])) vendorColumns
    untroubled noVendor draftVendor _ (by decide) (by decide) (migrated_postgresText _)
    (by decide) rfl rfl rfl vendorRenewal (by decide)
  exact absurd hstate (by decide)

end Created

end OpenRupiv.Runtime
