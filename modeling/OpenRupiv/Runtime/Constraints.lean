import OpenRupiv.Agents.Proposals
import OpenRupiv.Compiler.Tables
import OpenRupiv.Runtime.StatePaths

/-!
# The constraints of the migration

`NOT NULL` and the `CHECK` of enums, as the compiler emits them, are met by every row that the
runtime inserts or updates.
-/

namespace OpenRupiv.Compiler

open Js Spec OpenRupiv.Runtime

/-- `NOT NULL`, which a primary key implies, and `CHECK (column IN (…))`, which null passes. -/
def ColumnDef.admits (column : ColumnDef) (v : SqlValue) : Bool :=
  (v ≠ .null || !(column.notNull || column.primaryKey)) &&
    column.check.all fun values => v = .null || values.any fun s => v = .str (ofString s)

/-- A column that a row does not have is null. -/
def TableDef.admits (table : TableDef) (row : Row) : Bool :=
  table.columns.all fun column => column.admits ((row column.name).getD .null)

def literalValue : Literal → SqlValue
  | .str s => .str (ofString s)
  | .num n => .num n
  | .bool b => .bool b

/-- What an `INSERT` stores in a column that it does not name. -/
def ColumnDef.defaultValue (column : ColumnDef) (id : Uuid) (now : Int) : SqlValue :=
  match column.default with
  | none => .null
  | some .genRandomUuid => .str (ofString id)
  | some .now => .date now
  | some (.literal value) => literalValue value

end OpenRupiv.Compiler

namespace OpenRupiv.Runtime

open Js Lib Spec Audit

/-- The values that a body may give a field. -/
structure Accepts (field : FieldDef) (v : Scalar) : Prop where
  required : field.required = some true → v ≠ .null
  values : field.type = .enum → v = .null ∨ ∃ s ∈ field.values.getD [], v = .str (ofString s)

section Bodies

variable {host : Host} {model : EntityModel} {input : List (Text × Json)} {mode : Mode}
  {source : BodySource} {field : FieldDef}

theorem coerceValue_eq_ok {raw : Raw} {v : Scalar} (h : coerceValue host field raw source = .ok v) :
    v ≠ .null ∧ (field.type = .enum → ∃ s ∈ field.values.getD [], v = .str (ofString s)) := by
  unfold coerceValue at h
  cases htype : field.type with
  | enum =>
    simp only [htype] at h
    split at h
    · split at h
      · rename_i hmem
        obtain ⟨t, ht, rfl⟩ := List.mem_map.mp hmem
        obtain rfl := Except.ok.inj h
        exact ⟨by simp, fun _ => ⟨t, ht, rfl⟩⟩
      · cases h
    · cases h
  | _ =>
    refine ⟨?_, fun henum => absurd henum (by simp)⟩
    rintro rfl
    simp only [htype] at h
    repeat' split at h
    all_goals cases h

theorem accepts_of_round {e : String × Scalar}
    (h : validateField host model input mode source field = .ok (some e)) :
    Accepts field e.2 := by
  have hstate := (validateField_eq_some h).2
  unfold validateField at h
  rw [if_neg] at h
  case hnc =>
    intro hany
    obtain ⟨d, hd, hname⟩ := List.any_eq_true.mp hany
    exact hstate (List.mem_map.mpr ⟨d, hd, by simpa using hname⟩)
  dsimp only at h
  split at h
  · split at h <;> cases h
  · split at h
    · cases h
    · rename_i hrequired
      obtain rfl := Option.some.inj (Except.ok.inj h)
      exact ⟨fun hr => absurd hr hrequired, fun _ => .inl rfl⟩
  · split at h
    · rename_i value hvalue
      obtain rfl := Option.some.inj (Except.ok.inj h)
      obtain ⟨hnull, henum⟩ := coerceValue_eq_ok hvalue
      exact ⟨fun _ => hnull, fun htype => .inr (henum htype)⟩
    · cases h

theorem set_of_round {set : Option (String × Scalar)}
    (hstate : field.name ∉ model.stateFields.map Prod.fst)
    (hrequired : field.required = some true) (hdefault : field.default = none)
    (h : validateField host model input .create source field = .ok set) : set.isSome = true := by
  unfold validateField at h
  rw [if_neg] at h
  case hnc =>
    intro hany
    obtain ⟨d, hd, hname⟩ := List.any_eq_true.mp hany
    exact hstate (List.mem_map.mpr ⟨d, hd, by simpa using hname⟩)
  dsimp only at h
  split at h
  · rw [if_pos ⟨rfl, hrequired, hdefault⟩] at h
    cases h
  · rw [if_pos hrequired] at h
    cases h
  · split at h
    · rw [← Except.ok.inj h]
      rfl
    · cases h

end Bodies

/-- What PostgreSQL does with the tables that the migration created. -/
structure Executed (pg : Postgres) (spec : AppSpec) : Prop where
  /-- `DEFAULT VALUES`. -/
  newRow : ∀ table ∈ Compiler.tables spec, ∀ column ∈ table.columns, ∀ id now,
    pg.newRow table.name id now column.name = some (column.defaultValue id now)
  /-- Null, and only null, is stored as null. -/
  encode_null : ∀ table ∈ Compiler.tables spec, ∀ column ∈ table.columns, ∀ s v,
    pg.encode table.name column.name s = some v → (v = .null ↔ s = .null)
  encode_text : ∀ table ∈ Compiler.tables spec, ∀ column ∈ table.columns, column.type = .text →
    ∀ s v, wellFormed s = true → pg.encode table.name column.name (.str s) = some v → v = .str s

section Columns

variable {pg : Postgres} {spec : AppSpec} {entity : EntityDef} {field : FieldDef} {v : SqlValue}

theorem admits_of_not_null {column : Compiler.ColumnDef} (hcheck : column.check = none)
    (hv : v ≠ .null) : column.admits v = true := by
  simp [Compiler.ColumnDef.admits, hcheck, hv]

theorem admits_timeColumn (name : String) (now : Int) :
    (Compiler.timeColumn name).admits (.date now) = true :=
  admits_of_not_null rfl (by simp)

theorem admits_renderColumn {deferReference : Bool} (hnull : field.required = some true → v ≠ .null)
    (hvalues : field.type = .enum →
      v = .null ∨ ∃ value ∈ field.values.getD [], v = .str (ofString value)) :
    (Compiler.renderColumn field deferReference).admits v = true := by
  simp only [Compiler.ColumnDef.admits, Bool.and_eq_true, Bool.or_eq_true, decide_eq_true_eq,
    Compiler.renderColumn]
  refine ⟨?_, ?_⟩
  · by_cases hrequired : field.required = some true
    · exact .inl (hnull hrequired)
    · exact .inr (by simp [hrequired])
  · by_cases henum : field.type = .enum
    · rw [if_pos henum, Option.all_some, Bool.or_eq_true, decide_eq_true_eq, List.any_eq_true]
      refine (hvalues henum).imp_right ?_
      rintro ⟨value, hvalue, rfl⟩
      exact ⟨value, hvalue, by simp⟩
    · simp [henum]

theorem admits_of_accepts (hpg : Executed pg spec) {table : Compiler.TableDef}
    (htable : table ∈ Compiler.tables spec) {deferReference : Bool}
    (hcolumn : Compiler.renderColumn field deferReference ∈ table.columns) {s : Scalar}
    (haccepts : Accepts field s)
    (hencode : pg.encode table.name (Compiler.columnName field) s = some v) :
    (Compiler.renderColumn field deferReference).admits v = true := by
  have hnull := hpg.encode_null table htable _ hcolumn s v hencode
  apply admits_renderColumn
  · intro hrequired hv
    exact haccepts.required hrequired (hnull.mp hv)
  · intro henum
    rcases haccepts.values henum with rfl | ⟨value, hvalue, rfl⟩
    · exact .inl (hnull.mpr rfl)
    · refine .inr ⟨value, hvalue, ?_⟩
      apply hpg.encode_text table htable _ hcolumn _ _ v (wellFormed_ofString value) hencode
      simp [Compiler.renderColumn, henum, Compiler.sqlType]

end Columns

/-- The write leaves rows that the tables of the migration admit. -/
def KeepsConstraints (spec : AppSpec) : Write → Prop
  | .insertRow name _ row => ∀ table ∈ Compiler.tables spec, table.name = name →
      table.admits row = true
  | .setColumns name _ values => ∀ table ∈ Compiler.tables spec, table.name = name →
      ∀ e ∈ values, ∀ column ∈ table.columns, column.name = e.1 → column.admits e.2 = true
  | _ => True

section Writes

variable {pg : Postgres} {spec : AppSpec} {entity : EntityDef} {host : Host} {r : EntityRequest}
  {mode : Mode} {data : List (String × Scalar)} {choice : Choice} {κ : Contents}
  {reply : Option Row} {ws : List Write}

/-- The columns that a request names belong to fields that accept their values. -/
theorem accepts_of_mem_columns (hmodel : r.model = buildEntityModel spec entity) {values : List (String × Scalar)}
    (hvalues : ∀ d ∈ values, ∀ field ∈ entity.fields, field.name = d.1 → Accepts field d.2)
    {e : String × Scalar} (hmem : e ∈ r.columns values) :
    ∃ field ∈ entity.fields, e.1 = columnFor field ∧ Accepts field e.2 := by
  obtain ⟨d, hd, field, hfield, rfl⟩ := EntityRequest.mem_columns.mp hmem
  rw [hmodel, lookup_fieldByName] at hfield
  have hname : field.name = d.1 := by simpa using List.find?_some hfield
  have hmemField : field ∈ entity.fields :=
    List.mem_reverse.mp (List.mem_of_find?_eq_some hfield)
  exact ⟨field, hmemField, rfl, hvalues d hd field hmemField hname⟩

theorem accepts_validated (hvalid : spec.valid = true) (he : entity ∈ spec.entities)
    (hmodel : r.model = buildEntityModel spec entity) (hdata : r.validated host mode = .ok data) :
    ∀ d ∈ data, ∀ field ∈ entity.fields, field.name = d.1 → Accepts field d.2 := by
  intro d hd field hfield hname
  obtain ⟨input, -, owner, howner, hround⟩ := round_of_mem_validateBody hdata hd
  rw [hmodel] at howner
  obtain ⟨hkey, -⟩ := validateField_eq_some hround
  have hsame : owner = field := List.inj_on_of_nodup_map (AppSpec.nodup_fieldNames hvalid he) howner
    hfield (hkey.symm.trans hname.symm)
  rw [← hsame]
  exact accepts_of_round hround

theorem accepts_initial (hvalid : spec.valid = true) (he : entity ∈ spec.entities) :
    ∀ d ∈ (buildEntityModel spec entity).stateFields.map fun e => (e.1, Scalar.str (ofString e.2)),
      ∀ field ∈ entity.fields, field.name = d.1 → Accepts field d.2 := by
  intro d hd field hfield hname
  obtain ⟨e, hmem, rfl⟩ := List.mem_map.mp hd
  obtain ⟨workflow, hw, rfl⟩ := List.mem_map.mp (mem_newMap hmem)
  obtain ⟨hw, hentity⟩ := List.mem_filter.mp hw
  obtain ⟨owner, states, hbound⟩ := AppSpec.boundTo_of_mem hvalid hw
  have howner : owner = entity := entity_unique hvalid hbound.mem he
    (hbound.name_eq.trans (by simpa using hentity))
  subst howner
  obtain ⟨stateField, hmemField, hstateName, -, hstates⟩ := hbound.stateField
  have hsame : stateField = field := List.inj_on_of_nodup_map (AppSpec.nodup_fieldNames hvalid he)
    hmemField hfield (hstateName.trans hname.symm)
  subst hsame
  exact ⟨fun _ => by simp,
    fun _ => .inr ⟨workflow.initial, by simpa [hstates] using hbound.initial, rfl⟩⟩

/-- A required column without a default is named by every `INSERT`. -/
theorem mem_insertColumns_of_required (hvalid : spec.valid = true) (he : entity ∈ spec.entities)
    (hmodel : r.model = buildEntityModel spec entity) (hdata : r.validated host .create = .ok data)
    {field : FieldDef} (hfield : field ∈ entity.fields) (hrequired : field.required = some true)
    (hdefault : field.default = none) :
    columnFor field ∈ (r.insertColumns data).map Prod.fst := by
  have hlookup : r.model.fieldByName.lookup field.name = some field := by
    rw [hmodel, lookup_fieldByName]
    exact AppSpec.fieldByName_eq hvalid he hfield
  have hnamed : ∀ {values : List (String × Scalar)}, field.name ∈ values.map Prod.fst →
      columnFor field ∈ (r.columns values).map Prod.fst := by
    intro values hmem
    obtain ⟨d, hd, hname⟩ := List.mem_map.mp hmem
    exact List.mem_map.mpr ⟨_, EntityRequest.mem_columns.mpr ⟨d, hd, field, hname ▸ hlookup, rfl⟩, rfl⟩
  rw [EntityRequest.insertColumns, List.map_append, List.mem_append]
  by_cases hstate : field.name ∈ r.model.stateFields.map Prod.fst
  · left
    apply hnamed
    rw [List.map_map]
    exact hstate
  · right
    apply hnamed
    obtain ⟨input, -, -, hrounds, rfl⟩ := validateBody_eq_ok_iff.mp hdata
    have hmem : field ∈ r.model.entity.fields := by rwa [hmodel]
    obtain ⟨set, hround⟩ := hrounds field hmem
    obtain ⟨e, rfl⟩ := Option.isSome_iff_exists.mp (set_of_round hstate hrequired hdefault hround)
    apply mem_keys_newMap.mpr
    refine List.mem_map.mpr ⟨e, List.mem_filterMap.mpr ⟨field, hmem, ?_⟩, ?_⟩
    · rw [hround]
    · exact (validateField_eq_some hround).1

end Writes

/-- Every row that is stored is admitted by its table. -/
def Admitted (spec : AppSpec) (κ : Contents) : Prop :=
  ∀ table ∈ Compiler.tables spec, ∀ id row, κ.rows table.name id = some row → table.admits row = true

section Statements

variable {pg : Postgres} {spec : AppSpec} {entity : EntityDef} {host : Host} {κ : Contents}

theorem mem_encodeAll {table : String} {values : List (String × Scalar)}
    {stored : List (String × SqlValue)} (h : encodeAll pg table values = some stored)
    {d : String × SqlValue} (hd : d ∈ stored) :
    ∃ e ∈ values, d.1 = e.1 ∧ pg.encode table e.1 e.2 = some d.2 := by
  have hall := encodeAll_eq_some h
  clear h
  induction hall with
  | nil => exact absurd hd List.not_mem_nil
  | @cons e d' values stored hed _ ih =>
    rcases List.mem_cons.mp hd with rfl | hd
    · exact ⟨e, List.mem_cons_self, hed⟩
    · obtain ⟨e', he', hrest⟩ := ih hd
      exact ⟨e', List.mem_cons_of_mem _ he', hrest⟩

theorem admits_setAll {table : Compiler.TableDef} {row : Row} {values : List (String × SqlValue)}
    (hrow : table.admits row = true)
    (hvalues : ∀ e ∈ values, ∀ column ∈ table.columns, column.name = e.1 →
      column.admits e.2 = true) : table.admits (setAll row values) = true := by
  induction values generalizing row with
  | nil => exact hrow
  | cons e values ih =>
    show table.admits (setAll (Function.update row e.1 (some e.2)) values) = true
    apply ih
    · apply List.all_eq_true.mpr
      intro column hcolumn
      by_cases hname : column.name = e.1
      · rw [hname, Function.update_self]
        exact hvalues e List.mem_cons_self column hcolumn hname
      · rw [Function.update_of_ne hname]
        exact List.all_eq_true.mp hrow column hcolumn
    · intro d hd
      exact hvalues d (List.mem_cons_of_mem _ hd)

theorem Admitted.apply (h : Admitted spec κ) {w : Write} (hw : KeepsConstraints spec w) :
    Admitted spec (κ.apply w) := by
  intro table htable id row hrow
  by_cases htouch : w.touches (.row table.name id)
  · cases w with
    | insertRow name id' row' =>
      obtain ⟨rfl, rfl⟩ := htouch
      rw [Contents.apply, Contents.setRow_rows_self] at hrow
      rw [← Option.some.inj hrow]
      exact hw table htable rfl
    | setColumns name id' values =>
      obtain ⟨rfl, rfl⟩ := htouch
      rw [Contents.apply, Contents.setRow_rows_self] at hrow
      obtain ⟨row', hrow', rfl⟩ := Option.map_eq_some_iff.mp hrow
      exact admits_setAll (h table htable _ row' hrow') (hw table htable rfl)
    | _ => exact h table htable id row hrow
  · rw [← (sameRecord_apply κ htouch).1] at hrow
    exact h table htable id row hrow

theorem Admitted.applyAll (h : Admitted spec κ) {ws : List Write}
    (hws : ∀ w ∈ ws, KeepsConstraints spec w) : Admitted spec ((store pg).applyAll κ ws) := by
  induction ws generalizing κ with
  | nil => exact h
  | cons w ws ih =>
    rw [Engine.applyAll_cons]
    apply ih (h.apply (hws w List.mem_cons_self))
    intro w' hw'
    exact hws w' (List.mem_cons_of_mem _ hw')

variable (hvalid : spec.valid = true) (hcompiles : Compiler.compiles spec = true)
  (hpg : Executed pg spec) (he : entity ∈ spec.entities)
include hvalid hcompiles hpg he

omit hvalid hcompiles hpg he in
theorem name_entityTableDef :
    (Compiler.entityTableDef spec entity).name = entityTable entity.name :=
  snakeCase_eq_toSnakeCase _

omit hvalid hpg in
theorem column_of_field {field : FieldDef} (hfield : field ∈ entity.fields)
    {column : Compiler.ColumnDef} (hcolumn : column ∈ (Compiler.entityTableDef spec entity).columns)
    (hname : column.name = columnFor field) :
    ∃ deferReference, column = Compiler.renderColumn field deferReference := by
  have hreserved := column_not_reserved hcompiles he hfield
  rw [← hname] at hreserved
  rcases Compiler.mem_columns_entityTableDef.mp hcolumn with rfl |
    ⟨other, hother, deferReference, rfl, -⟩ | rfl | rfl
  · exact absurd (by decide) hreserved
  · refine ⟨deferReference, ?_⟩
    rw [List.inj_on_of_nodup_map (nodup_columns hcompiles he) hother hfield]
    rw [← columnName_eq_columnFor]
    exact hname
  · exact absurd (by decide) hreserved
  · exact absurd (by decide) hreserved

omit hvalid hpg in
theorem admits_updated_at {column : Compiler.ColumnDef}
    (hcolumn : column ∈ (Compiler.entityTableDef spec entity).columns)
    (hname : column.name = "updated_at") (now : Int) : column.admits (.date now) = true := by
  rcases Compiler.mem_columns_entityTableDef.mp hcolumn with rfl |
    ⟨field, hfield, deferReference, rfl, -⟩ | rfl | rfl
  · exact absurd hname (by decide)
  · have hreserved := column_not_reserved hcompiles he hfield
    rw [← columnName_eq_columnFor, show Compiler.columnName field = "updated_at" from hname]
      at hreserved
    exact absurd (by decide) hreserved
  · exact absurd hname (by decide)
  · exact admits_timeColumn "updated_at" now

omit hvalid in
theorem admits_stored {columns : List (String × Scalar)} {stored : List (String × SqlValue)}
    (haccepts : ∀ e ∈ columns, ∃ field ∈ entity.fields, e.1 = columnFor field ∧ Accepts field e.2)
    (hstored : encodeAll pg (entityTable entity.name) columns = some stored)
    {d : String × SqlValue} (hd : d ∈ stored) {column : Compiler.ColumnDef}
    (hcolumn : column ∈ (Compiler.entityTableDef spec entity).columns)
    (hname : column.name = d.1) : column.admits d.2 = true := by
  obtain ⟨e, hmem, hkey, hencode⟩ := mem_encodeAll hstored hd
  obtain ⟨field, hfield, hfor, haccept⟩ := haccepts e hmem
  obtain ⟨deferReference, rfl⟩ :=
    column_of_field hcompiles he hfield hcolumn (hname.trans (hkey.trans hfor))
  apply admits_of_accepts hpg (Compiler.entityTableDef_mem he) hcolumn haccept
  rwa [name_entityTableDef, columnName_eq_columnFor, ← hfor]

omit hcompiles hpg in
/-- The default of a column that an `INSERT` does not name. -/
theorem admits_defaultValue {column : Compiler.ColumnDef}
    (hcolumn : column ∈ (Compiler.entityTableDef spec entity).columns)
    (hrequired : ∀ field ∈ entity.fields, column.name = columnFor field →
      field.required = some true → field.default ≠ none) (id : Uuid) (now : Int) :
    column.admits (column.defaultValue id now) = true := by
  rcases Compiler.mem_columns_entityTableDef.mp hcolumn with rfl |
    ⟨field, hfield, deferReference, rfl, -⟩ | rfl | rfl
  · exact admits_of_not_null rfl (by simp [Compiler.ColumnDef.defaultValue, Compiler.idColumn])
  · cases hdefault : field.default with
    | none =>
      apply admits_renderColumn
      · intro hr
        exact absurd hdefault (hrequired field hfield (columnName_eq_columnFor field) hr)
      · intro _
        simp [Compiler.ColumnDef.defaultValue, Compiler.renderColumn, hdefault]
    | some value =>
      have hvalue : (Compiler.renderColumn field deferReference).defaultValue id now =
          Compiler.literalValue value := by
        simp [Compiler.ColumnDef.defaultValue, Compiler.renderColumn, hdefault]
      rw [hvalue]
      apply admits_renderColumn
      · intro _
        cases value <;> simp [Compiler.literalValue]
      · intro henum
        obtain ⟨s, hs, rfl⟩ := AppSpec.default_of_enum hvalid he hfield henum hdefault
        exact .inr ⟨s, hs, rfl⟩
  · exact admits_timeColumn "created_at" now
  · exact admits_timeColumn "updated_at" now

variable {r : EntityRequest} (hmodel : r.model = buildEntityModel spec entity)
include hmodel

omit hvalid hcompiles hpg he in
theorem EntityRequest.table_eq : r.table = entityTable entity.name := by
  rw [EntityRequest.table, hmodel]
  rfl

theorem keeps_insertRecord {data : List (String × Scalar)}
    (hdata : r.validated host .create = .ok data) {w : Write}
    (hw : ∃ choice κ reply ws,
      (Stmt.insertRecord r.table (r.insertColumns data)).exec pg choice κ = some (reply, ws) ∧
        w ∈ ws) : KeepsConstraints spec w := by
  obtain ⟨choice, κ, reply, ws, hexec, hmem⟩ := hw
  simp only [Stmt.exec, Option.bind_eq_bind, Option.bind_eq_some_iff, Option.pure_def,
    Option.some.injEq, Prod.mk.injEq, Option.guard_eq_some'] at hexec
  obtain ⟨_, hnodup, stored, hstored, -, -, -, rfl⟩ := hexec
  obtain rfl := List.mem_singleton.mp hmem
  rw [EntityRequest.table_eq hmodel] at hstored ⊢
  intro table htable hname
  obtain rfl := Compiler.eq_entityTableDef hcompiles he htable
    (hname.trans (snakeCase_eq_toSnakeCase _).symm)
  apply List.all_eq_true.mpr
  intro column hcolumn
  have hkeys := keys_encodeAll hstored
  by_cases hset : column.name ∈ stored.map Prod.fst
  · obtain ⟨d, hd, hkey⟩ := List.mem_map.mp hset
    rw [← hkey, setAll_of_mem (hkeys ▸ hnodup) hd, Option.getD_some]
    apply admits_stored hcompiles hpg he _ hstored hd hcolumn hkey.symm
    intro e hmem
    rcases List.mem_append.mp hmem with hmem | hmem
    · apply accepts_of_mem_columns hmodel _ hmem
      rw [hmodel]
      exact accepts_initial hvalid he
    · exact accepts_of_mem_columns hmodel (accepts_validated hvalid he hmodel hdata) hmem
  · rw [setAll_of_not_mem hset, ← name_entityTableDef,
      hpg.newRow _ (Compiler.entityTableDef_mem he) column hcolumn, Option.getD_some]
    apply admits_defaultValue hvalid he hcolumn
    intro field hfield hfor hrequired hdefault
    apply hset
    rw [hkeys, hfor]
    exact mem_insertColumns_of_required hvalid he hmodel hdata hfield hrequired hdefault

theorem keeps_updateRecord {data : List (String × Scalar)}
    (hdata : r.validated host .update = .ok data) {w : Write}
    (hw : ∃ choice κ reply ws,
      (Stmt.updateRecord r.table (r.columns data) r.recordId).exec pg choice κ = some (reply, ws) ∧
        w ∈ ws) : KeepsConstraints spec w := by
  obtain ⟨choice, κ, reply, ws, hexec, hmem⟩ := hw
  simp only [Stmt.exec, Option.bind_eq_bind, Option.bind_eq_some_iff, Option.guard_eq_some'] at hexec
  obtain ⟨uuid, -, _, -, stored, hstored, hexec⟩ := hexec
  rw [EntityRequest.table_eq hmodel] at hstored hexec
  split at hexec
  · obtain ⟨-, rfl⟩ := Prod.mk.inj (Option.some.inj hexec)
    exact absurd hmem List.not_mem_nil
  · obtain ⟨-, rfl⟩ := Prod.mk.inj (Option.some.inj hexec)
    obtain rfl := List.mem_singleton.mp hmem
    intro table htable hname
    obtain rfl := Compiler.eq_entityTableDef hcompiles he htable
      (hname.trans (snakeCase_eq_toSnakeCase _).symm)
    intro d hd column hcolumn hkey
    rcases List.mem_append.mp hd with hd | hd
    · apply admits_stored hcompiles hpg he _ hstored hd hcolumn hkey
      intro e hmem
      exact accepts_of_mem_columns hmodel (accepts_validated hvalid he hmodel hdata) hmem
    · obtain rfl := List.mem_singleton.mp hd
      exact admits_updated_at hcompiles he hcolumn hkey _

omit hpg hmodel in
theorem keeps_updateState {i : ExecuteTransitionInput} (hi : OnRoute spec entity i) {w : Write}
    (hw : ∃ choice κ reply ws,
      (Stmt.updateState i.table i.stateColumn i.transition.to i.recordId).exec pg choice κ =
        some (reply, ws) ∧ w ∈ ws) : KeepsConstraints spec w := by
  obtain ⟨choice, κ, reply, ws, hexec, hmem⟩ := hw
  simp only [Stmt.exec, Option.bind_eq_bind, Option.bind_eq_some_iff] at hexec
  obtain ⟨uuid, -, hexec⟩ := hexec
  split at hexec
  · obtain ⟨-, rfl⟩ := Prod.mk.inj (Option.some.inj hexec)
    exact absurd hmem List.not_mem_nil
  · obtain ⟨-, rfl⟩ := Prod.mk.inj (Option.some.inj hexec)
    obtain rfl := List.mem_singleton.mp hmem
    intro table htable hname
    rw [hi.table_eq] at hname
    obtain rfl := Compiler.eq_entityTableDef hcompiles he htable
      (hname.trans (snakeCase_eq_toSnakeCase _).symm)
    intro d hd column hcolumn hkey
    rcases List.mem_cons.mp hd with rfl | hd
    · obtain ⟨owner, states, hbound⟩ := AppSpec.boundTo_of_mem hvalid hi.workflow
      have howner : owner = entity := entity_unique hvalid hbound.mem he
        (hbound.name_eq.trans hi.bound)
      subst howner
      obtain ⟨field, hfield, hfieldName, htype, hstates⟩ := hbound.stateField
      have hfor : i.stateColumn = columnFor field := by
        simp [ExecuteTransitionInput.stateColumn, columnFor, htype, hfieldName]
      obtain ⟨deferReference, rfl⟩ := column_of_field hcompiles he hfield hcolumn (hkey.trans hfor)
      apply admits_renderColumn
      · simp
      · intro _
        refine .inr ⟨i.transition.to, ?_, rfl⟩
        simpa [hstates] using (hbound.states_mem hi.transition).2
    · obtain rfl := List.mem_singleton.mp hd
      exact admits_updated_at hcompiles he hcolumn hkey _

end Statements

def Stmt.writesEntity : Stmt → Bool
  | .insertRecord _ _ | .updateRecord _ _ _ | .updateState _ _ _ _ => true
  | _ => false

/-- Whatever the database makes of the command, the constraints are kept. -/
def Keeps (spec : AppSpec) {pg : Postgres} (k : Cmd (store pg)) : Prop :=
  ∀ w, k.Writes w → KeepsConstraints spec w

section Requests

variable {pg : Postgres} {spec : AppSpec} {host : Host} {sha256 : String → String} {ε α β : Type}

theorem keeps_service {k : Cmd (store pg)} (h : Agents.isService k = true) : Keeps spec k := by
  intro w hw
  cases k <;> first | exact False.elim hw | exact absurd h (by simp [Agents.isService])

theorem keeps_of_not_writesEntity {s : Stmt} (h : s.writesEntity = false) :
    Keeps spec (.tx s : Cmd (store pg)) := by
  rintro w ⟨choice, κ, reply, ws, hexec, hmem⟩
  cases s with
  | insertRecord | updateRecord | updateState => exact absurd h (by simp [Stmt.writesEntity])
  | selectById | selectForUpdate | deleteApprovals | countApprovals | insertAudit | insertProposal
  | insertTask | selectTask =>
    simp only [Stmt.exec, Option.bind_eq_bind, Option.bind_eq_some_iff, Option.pure_def,
      Option.some.injEq, Prod.mk.injEq] at hexec
    grind [KeepsConstraints]
  | insertApproval | lockChainTail | selectTail =>
    simp only [Stmt.exec, Option.bind_eq_bind, Option.bind_eq_some_iff, Option.pure_def,
      Option.some.injEq, Prod.mk.injEq] at hexec
    grind [KeepsConstraints]

theorem confined_check_bind [Raises ε] {P : Cmd (store pg) → Prop} {x : Except RuntimeError β}
    {f : β → Async pg ε α} (hf : ∀ b, x = .ok b → Confined P (f b)) :
    Confined P (check x >>= f) := by
  cases x with
  | error error => trivial
  | ok b => exact hf b rfl

theorem confined_query_bind [Fault ε] {P : Cmd (store pg) → Prop} {s : Stmt}
    {f : s.Reply → Async pg ε α} (hs : P (.query s)) (hf : ∀ r, Confined P (f r)) :
    Confined P (query s >>= f) :=
  confined_perform_bind hs fun r _ => hf r

theorem keeps_appendInTransaction [Fault ε] {logged : Bool} {input : AuditRecordInput} :
    Confined (Keeps spec) (appendInTransaction sha256 logged input : Async pg ε AuditRecord) :=
  Agents.confined_appendInTransaction (fun _ => keeps_service) (keeps_of_not_writesEntity rfl)
    (keeps_of_not_writesEntity rfl) fun _ _ => keeps_of_not_writesEntity rfl

theorem keeps_appendOrFail {input : AuditRecordInput} :
    Confined (Keeps spec) (appendOrFail sha256 input : Async pg Thrown Unit) := by
  apply (Agents.confined_transaction (fun _ => keeps_service) keeps_appendInTransaction).result.bind
  intro outcome
  cases outcome with
  | ok record => trivial
  | error error => exact Agents.confined_ext_bind (keeps_service rfl) fun _ => trivial

theorem keeps_appendEach (inputs : List AuditRecordInput) :
    Confined (Keeps spec) (appendEach sha256 inputs : Async pg Thrown Nat) := by
  induction inputs with
  | nil => trivial
  | cons input rest ih =>
    apply keeps_appendOrFail.result.bind
    intro outcome
    apply ih.bind
    intro failures
    cases outcome <;> trivial

theorem keeps_appendAllOrFail {inputs : List AuditRecordInput} :
    Confined (Keeps spec) (appendAllOrFail sha256 inputs : Async pg Thrown Unit) := by
  apply (keeps_appendEach inputs).bind
  intro failures
  split <;> trivial

variable {entity : EntityDef} (hvalid : spec.valid = true)
  (hcompiles : Compiler.compiles spec = true) (hpg : Executed pg spec)
  (he : entity ∈ spec.entities)
include hvalid hcompiles hpg he

omit hpg in
theorem keeps_executeTransition {i : ExecuteTransitionInput} (hi : OnRoute spec entity i) :
    Confined (Keeps spec) (executeTransition host sha256 i : Async pg Thrown TransitionOutcome) := by
  have hask : ∀ q, Confined (Keeps spec) (ask sha256 i q : Async pg Thrown Unit) := by
    intro q
    refine Confined.bind ?_ fun decision => ?_
    · apply Agents.confined_ext_bind (keeps_service rfl)
      intro decision
      apply Agents.confined_ext_bind (keeps_service rfl)
      intro _
      exact keeps_appendOrFail.bind fun _ => trivial
    · unfold check
      cases i.requireAllowed q decision <;> trivial
  have hsetState : Confined (Keeps spec) (setState i : Async pg Raised Unit) := by
    apply confined_check_bind
    intro _ _
    apply confined_check_bind
    intro _ _
    apply Agents.confined_tx_bind (fun w hw => keeps_updateState hvalid hcompiles he hi hw)
    intro rowCount _
    split
    · trivial
    · exact confined_perform (keeps_of_not_writesEntity rfl)
  have happly : ∀ approvals, Confined (Keeps spec)
      (applyTransition sha256 i approvals : Async pg Raised TransitionOutcome) := by
    intro approvals
    apply hsetState.bind
    intro _
    apply keeps_appendInTransaction.bind
    intro _
    exact Agents.confined_ext_bind (keeps_service rfl) fun _ => trivial
  have happrove : ∀ rule, Confined (Keeps spec)
      (approveTransition sha256 i rule : Async pg Raised TransitionOutcome) := by
    intro rule
    apply Agents.confined_tx_bind (keeps_of_not_writesEntity rfl)
    intro inserted _
    split
    · exact Agents.confined_ext_bind (keeps_service rfl) fun _ => trivial
    · apply Agents.confined_tx_bind (keeps_of_not_writesEntity rfl)
      intro approvals _
      split
      · exact happly _
      · apply keeps_appendInTransaction.bind
        intro _
        exact Agents.confined_ext_bind (keeps_service rfl) fun _ => trivial
  have hbody : Confined (Keeps spec)
      (transitionBody host sha256 i : Async pg Raised TransitionOutcome) := by
    apply confined_check_bind
    intro _ _
    apply Agents.confined_tx_bind (keeps_of_not_writesEntity rfl)
    intro found _
    apply confined_check_bind
    intro row _
    apply confined_check_bind
    intro _ _
    apply confined_check_bind
    intro _ _
    split
    · exact happly _
    · exact happrove _
  apply confined_check_bind
  intro _ _
  apply confined_query_bind (fun w hw => @keeps_of_not_writesEntity pg spec _ rfl w hw)
  intro peek
  apply confined_check_bind
  intro peekRow _
  apply confined_check_bind
  intro _ _
  apply Confined.bind
  · apply (hask .fire).bind
    intro _
    apply confined_check_bind
    intro _ _
    split
    · exact hask .approve
    · trivial
  · intro _
    apply (Agents.confined_transaction (fun _ => keeps_service) hbody).result.bind
    intro outcome
    cases outcome with
    | ok outcome => exact keeps_appendAllOrFail.bind fun _ => trivial
    | error raised => exact keeps_appendAllOrFail.bind fun _ => trivial

variable {r : EntityRequest} (hmodel : r.model = buildEntityModel spec entity)
include hmodel

omit hvalid hcompiles hpg he hmodel in
theorem keeps_validateBodyAudited_bind {mode : Mode}
    {f : List (String × Scalar) → Async pg Thrown α}
    (hf : ∀ data, r.validated host mode = .ok data → Confined (Keeps spec) (f data)) :
    Confined (Keeps spec) (validateBodyAudited host sha256 r mode >>= f) := by
  unfold validateBodyAudited
  cases hdata : r.validated host mode with
  | ok data => exact hf data hdata
  | error error =>
    dsimp only
    split
    · exact keeps_appendOrFail.bind_throw
    · trivial

theorem keeps_post :
    Confined (Keeps spec) (post host sha256 r : Async pg Thrown Response) := by
  apply keeps_validateBodyAudited_bind
  intro data hdata
  apply Confined.bind
  · apply confined_check_bind
    intro _ _
    apply confined_check_bind
    intro _ _
    apply confined_query_bind
      (fun w hw => keeps_insertRecord hvalid hcompiles hpg he hmodel hdata hw)
    intro row
    cases row <;> trivial
  · intro row
    exact Agents.confined_ext_bind (keeps_service rfl) fun _ => trivial

theorem keeps_put :
    Confined (Keeps spec) (put host sha256 r : Async pg Thrown Response) := by
  apply confined_check_bind
  intro _ _
  apply keeps_validateBodyAudited_bind
  intro data hdata
  apply confined_check_bind
  intro _ _
  apply confined_check_bind
  intro _ _
  apply confined_query_bind
    (fun w hw => keeps_updateRecord hvalid hcompiles hpg he hmodel hdata hw)
  intro row
  cases row with
  | none => trivial
  | some row => exact Agents.confined_ext_bind (keeps_service rfl) fun _ => trivial

end Requests

section Runs

variable {pg : Postgres} {spec : AppSpec} {host : Host} {sha256 : String → String} {Client : Type}
  {calls : Client → Call} {init : Contents}

theorem keeps_serve (hvalid : spec.valid = true) (hcompiles : Compiler.compiles spec = true)
    (hpg : Executed pg spec) {call : Call} (hrouted : call.Routed spec) :
    Confined (Keeps spec) (serve host sha256 call : Async pg Thrown Unit) := by
  apply Agents.confined_ext_bind (keeps_service rfl)
  intro _
  refine Confined.bind (Confined.result ?_) fun answer => confined_perform (keeps_service rfl)
  cases call with
  | transition i =>
    obtain ⟨entity, hi⟩ := hrouted.onRoute
    exact (keeps_executeTransition hvalid hcompiles hi.mem hi).bind fun _ => trivial
  | create r =>
    obtain ⟨entity, he, hmodel⟩ := hrouted.onEntity
      (show (Call.create r).request = some (r, .create) from rfl)
    exact keeps_post hvalid hcompiles hpg he hmodel
  | update r =>
    obtain ⟨entity, he, hmodel⟩ := hrouted.onEntity
      (show (Call.update r).request = some (r, .update) from rfl)
    exact keeps_put hvalid hcompiles hpg he hmodel

/-- Every row is admitted by its table in every state that requests lead to, and whatever statement
a client issues next leaves it so, on what its transaction sees and on the committed rows. -/
theorem writes_keep_constraints [DecidableEq Client] (hvalid : spec.valid = true)
    (hcompiles : Compiler.compiles spec = true) (hpg : Executed pg spec)
    (hrouted : ∀ c, (calls c).Routed spec) (hinit : Admitted spec init)
    {schedule : List (Client × Choice)} {W : World (store pg) Client Thrown Unit}
    (hrun : World.run schedule (server pg host sha256 calls init) = some W) :
    Admitted spec W.contents ∧ ∀ c k next, W.procs c = .call k next →
      ∀ s, k = .tx s ∨ k = .query s → ∀ choice reply ws,
        (s.exec pg choice W.contents = some (reply, ws) →
          Admitted spec ((store pg).applyAll W.contents ws)) ∧
        (s.exec pg choice ((store pg).applyAll W.contents (W.session c).pending) = some (reply, ws) →
          Admitted spec ((store pg).applyAll
            ((store pg).applyAll W.contents (W.session c).pending) ws)) := by
  have hdeeds := deeds_of_run (P := fun _ => Keeps spec)
    (fun c => keeps_serve hvalid hcompiles hpg (hrouted c)) hrun
  have hcontents : Admitted spec W.contents := by
    rw [contents_of_run hrun]
    apply hinit.applyAll
    intro w hw
    obtain ⟨e, he, hmem⟩ := List.mem_flatMap.mp hw
    obtain ⟨k, hkeeps, hwrites⟩ := hdeeds.writes e he w hmem
    exact hkeeps w hwrites
  have hview : ∀ c, Admitted spec ((store pg).applyAll W.contents (W.session c).pending) := by
    intro c
    apply hcontents.applyAll
    intro w hw
    obtain ⟨k, hkeeps, hwrites⟩ := hdeeds.pending c w hw
    exact hkeeps w hwrites
  refine ⟨hcontents, ?_⟩
  intro c k next hnext s hs choice reply ws
  have hkeeps : Keeps spec k := by
    have hconfined := hdeeds.procs c
    rw [hnext] at hconfined
    exact hconfined.1
  have hws : ∀ κ, s.exec pg choice κ = some (reply, ws) → ∀ w ∈ ws, KeepsConstraints spec w := by
    intro κ hexec w hw
    apply hkeeps
    rcases hs with rfl | rfl <;> exact ⟨choice, κ, reply, ws, hexec, hw⟩
  exact ⟨fun hexec => hcontents.applyAll (hws _ hexec), fun hexec => (hview c).applyAll (hws _ hexec)⟩

end Runs

/-- The columns keep their parameters, and an `INSERT` gives the defaults of the migration. -/
def migratedText (spec : AppSpec) : Postgres where
  columns := postgresText.columns
  uuid := postgresText.uuid
  newRow name id now column :=
    ((Compiler.tables spec).find? fun table => table.name = name).bind fun table =>
      (table.columns.find? fun c => c.name = column).map fun c => c.defaultValue id now
  encode := postgresText.encode

theorem executed_vendors : Executed (migratedText vendorApp) vendorApp where
  newRow := by
    have htables : Compiler.tables vendorApp = [Compiler.entityTableDef vendorApp vendor] := by
      decide
    intro table htable column hcolumn id now
    rw [htables, List.mem_singleton] at htable
    subst htable
    have hcolumns : ∀ column ∈ (Compiler.entityTableDef vendorApp vendor).columns,
        (Compiler.entityTableDef vendorApp vendor).columns.find? (fun c => c.name = column.name) =
          some column := by decide
    simp [migratedText, htables, hcolumns column hcolumn]
  encode_null := by
    intro table _ column _ s v hv
    cases s <;> (obtain rfl := Option.some.inj hv; simp)
  encode_text := by
    intro table _ column _ _ s v _ hv
    exact (Option.some.inj hv).symm

theorem writes_keep_constraints_vendors :
    ∃ W, World.run (List.replicate 4 ((), untroubled))
        (server (migratedText vendorApp) plainHost id
          (fun _ => .create (createVendor vendorApp)) noVendor) = some W ∧
      (W.contents.rows "vendor" vendorId).isSome = true ∧ Admitted vendorApp W.contents := by
  have hsome : (World.run (List.replicate 4 ((), untroubled))
      (server (migratedText vendorApp) plainHost id
        (fun _ : Unit => .create (createVendor vendorApp)) noVendor)).map
      (fun W => (W.contents.rows "vendor" vendorId).isSome) = some true := by decide
  obtain ⟨W, hrun, hrow⟩ := Option.map_eq_some_iff.mp hsome
  refine ⟨W, hrun, hrow, ?_⟩
  apply (writes_keep_constraints _ _ executed_vendors _ _ hrun).1
  · decide
  · decide
  · intro _
    exact .create List.mem_cons_self
  · intro table _ id row hrow
    exact absurd hrow (by simp [noVendor])

end OpenRupiv.Runtime
