import Mathlib.Data.List.Find
import OpenRupiv.Compiler.Order
import OpenRupiv.Compiler.Reloaded
import OpenRupiv.Js.Redaction

/-!
# Specs that are compiled again

The spec that was loaded from an emitted `spec.json` compiles to the same files.  The sign of a zero
is lost in the defaults of fields, and SQL has no other text for it.
-/

namespace OpenRupiv.Compiler

open Js Lib Spec Generator

theorem ownEntries_ownEntries {α : Type} (ms : List (Text × α)) :
    ownEntries (ownEntries ms) = ownEntries ms := by
  have hall := ownEntries_filter_ownEntries (fun _ => true) ms
  rwa [List.filter_eq_self.mpr fun _ _ => rfl] at hall

theorem indented_reprint (gap : Text) (v : Json) (indent : Text) :
    indented gap (reprint v) indent = indented gap v indent := by
  induction v using Json.induct generalizing indent with
  | scalar a =>
    rw [reprint, Json.rebuild_scalar, indented_scalar, indented_scalar]
    cases a with
    | num n => cases n <;> rfl
    | _ => rfl
  | arr items ih =>
    have hreprint : reprint (.arr items) = .arr (items.map reprint) := Json.rebuild_arr items
    rw [hreprint, indented_arr, indented_arr]
    simp only [List.map_map]
    refine congrArg (bracketed gap '[' ']' · indent) (funext fun indent => ?_)
    exact List.map_congr_left fun v hv => ih v hv indent
  | obj ms ih =>
    have hreprint : reprint (.obj ms) = .obj (mapValues reprint (ownEntries ms)) :=
      Json.rebuild_obj ms
    rw [hreprint, indented_obj, indented_obj, ownEntries_mapValues, ownEntries_ownEntries]
    refine congrArg (bracketed gap '\x7b' '\x7d' · indent) (funext fun indent => ?_)
    rw [mapValues, List.map_map]
    refine List.map_congr_left fun m hm => ?_
    have hmem : m ∈ ms := (perm_ownEntries ms).mem_iff.mp hm
    exact congrArg (lineOf m.1) (ih m hmem indent)

theorem stringifyIndented_reprint (v : Json) :
    stringifyIndented (reprint v) = stringifyIndented v := indented_reprint (ofString "  ") v []

theorem map_columnName_unsignedField (fields : List FieldDef) :
    (fields.map unsignedField).map columnName = fields.map columnName := List.map_map

theorem fieldsCompile_unsigned {names : List String} {fields : List FieldDef}
    (h : FieldsCompile names fields) : FieldsCompile names (fields.map unsignedField) where
  columns := by
    rw [map_columnName_unsignedField]
    exact h.columns
  free := List.forall_mem_map.mpr h.free
  values := List.forall_mem_map.mpr h.values
  targets := List.forall_mem_map.mpr h.targets

theorem compilable_unsignedSpec {spec : AppSpec} (h : Compilable spec) :
    Compilable (unsignedSpec spec) := by
  have hnames : (unsignedSpec spec).entities.map (·.name) = spec.entities.map (·.name) :=
    map_name_unsignedEntity spec.entities
  have htables : (unsignedSpec spec).entities.flatMap tablesOf = spec.entities.flatMap tablesOf :=
    List.flatMap_map ..
  exact {
    policies := h.policies
    evidence := h.evidence
    tables := by
      rw [htables]
      exact h.tables
    fields := by
      rw [hnames]
      exact List.forall_mem_map.mpr fun entity hentity =>
        fieldsCompile_unsigned (h.fields entity hentity)
    relations := by
      rw [hnames]
      exact List.forall_mem_map.mpr h.relations }

theorem unsignedField_of_default_none {field : FieldDef} (h : field.default = none) :
    unsignedField field = field := by
  rw [unsignedField, h, Option.map_none, ← h]

/-- Entities whose names differ, and whose references have no default. -/
structure Orderable (entities : List EntityDef) : Prop where
  names : (entities.map (·.name)).Nodup
  defaults : ∀ entity ∈ entities, ∀ field ∈ entity.fields, field.type = .reference →
    field.default = none

theorem orderable_of_valid {spec : AppSpec} (h : spec.valid = true) : Orderable spec.entities := by
  have haccepted := (AppSpec.valid_iff.mp h).2
  refine ⟨haccepted.entityNames, ?_⟩
  intro entity hentity field hfield htype
  cases hdefault : field.default with
  | none => rfl
  | some value =>
    have hfits := ((haccepted.entities entity hentity).fields field hfield).default value hdefault
    unfold FieldDef.DefaultFits at hfits
    rw [htype] at hfits
    cases value <;> exact hfits.elim

namespace Orderable

variable {entities : List EntityDef}

theorem eq_of_unsigned (h : Orderable entities) {x y : EntityDef} (hx : x ∈ entities)
    (hy : y ∈ entities) (heq : unsignedEntity x = unsignedEntity y) : x = y := by
  have hname : (unsignedEntity x).name = (unsignedEntity y).name := by rw [heq]
  exact List.inj_on_of_nodup_map h.names hx hy hname

theorem reference (h : Orderable entities) {entity : EntityDef} (hentity : entity ∈ entities)
    {field : FieldDef} (hfield : field ∈ entity.fields) (htype : field.type = .reference) :
    unsignedField field = field :=
  unsignedField_of_default_none (h.defaults entity hentity field hfield htype)

/-- Only references are deferred, so a field is deferred with the sign of its default or without. -/
theorem deferred_iff (h : Orderable entities) {deferred : Deferred}
    (hdeferred : ∀ d ∈ deferred, d.2.type = .reference) {entity : EntityDef}
    (hentity : entity ∈ entities) {field : FieldDef} (hfield : field ∈ entity.fields) :
    ((entity.name, unsignedField field) ∈ deferred) ↔ (entity.name, field) ∈ deferred := by
  by_cases htype : field.type = .reference
  · rw [h.reference hentity hfield htype]
  · constructor
    · exact fun hmem => absurd (hdeferred _ hmem) htype
    · exact fun hmem => absurd (hdeferred _ hmem) htype

end Orderable

/-- A plan without the signs of defaults. -/
def TableOrderPlan.unsigned (plan : TableOrderPlan) : TableOrderPlan :=
  { remaining := plan.remaining.map unsignedEntity
    order := plan.order.map unsignedEntity
    deferredFields := plan.deferredFields }

theorem map_erase_of_inj {α β : Type} [DecidableEq α] [DecidableEq β] {f : α → β} {l : List α} {a : α}
    (h : ∀ b ∈ l, f b = f a → b = a) : (l.map f).erase (f a) = (l.erase a).map f := by
  induction l with
  | nil => rfl
  | cons b l ih =>
    by_cases hb : b = a
    · rw [hb, List.map_cons, List.erase_cons_head, List.erase_cons_head]
    · have hne : f b ≠ f a := fun heq => hb (h b List.mem_cons_self heq)
      rw [List.map_cons, List.erase_cons_tail (by simpa using hne),
        List.erase_cons_tail (by simpa using hb), List.map_cons,
        ih fun c hc => h c (List.mem_cons_of_mem _ hc)]

namespace TableOrderPlan

variable {entities : List EntityDef} {plan : TableOrderPlan}

theorem emitted_unsigned (name : String) : plan.unsigned.emitted name = plan.emitted name := by
  rw [emitted, emitted, unsigned, List.any_map]
  rfl

theorem isUnmet_unsigned (entity : EntityDef) (field : FieldDef) :
    plan.unsigned.isUnmet (unsignedEntity entity) (unsignedField field) =
      plan.isUnmet entity field := by
  have hemitted : plan.unsigned.emitted = plan.emitted := funext emitted_unsigned
  rw [isUnmet, isUnmet, hemitted]
  rfl

theorem isReady_unsigned (h : Orderable entities)
    (hdeferred : ∀ d ∈ plan.deferredFields, d.2.type = .reference) {entity : EntityDef}
    (hentity : entity ∈ entities) :
    plan.unsigned.isReady (unsignedEntity entity) = plan.isReady entity := by
  have hfields : (unsignedEntity entity).fields = entity.fields.map unsignedField := rfl
  rw [isReady, isReady, hfields, List.all_map, Bool.eq_iff_iff, List.all_eq_true, List.all_eq_true]
  apply forall₂_congr
  intro field hfield
  have hiff := h.deferred_iff hdeferred hentity hfield
  simp only [Function.comp_apply, isUnmet_unsigned, Bool.or_eq_true, decide_eq_true_eq]
  exact or_congr Iff.rfl hiff

theorem round_unsigned (h : Orderable entities)
    (hdeferred : ∀ d ∈ plan.deferredFields, d.2.type = .reference)
    (hremaining : plan.remaining ⊆ entities) : plan.unsigned.round = plan.round.unsigned := by
  have hfind : plan.unsigned.remaining.find? plan.unsigned.isReady =
      (plan.remaining.find? plan.isReady).map unsignedEntity := by
    have hready : ∀ entity ∈ plan.remaining,
        (plan.unsigned.isReady ∘ unsignedEntity) entity = plan.isReady entity :=
      fun entity hentity => isReady_unsigned h hdeferred (hremaining hentity)
    rw [unsigned, List.find?_map, ← unsigned, List.find?_congr hready]
  rw [round, round, hfind]
  cases hnext : plan.remaining.find? plan.isReady with
  | some entity =>
    have hentity := hremaining (List.mem_of_find?_eq_some hnext)
    have herase := map_erase_of_inj (f := unsignedEntity) (l := plan.remaining) (a := entity)
      fun other hother heq => h.eq_of_unsigned (hremaining hother) hentity heq
    simp only [Option.map_some, unsigned, herase, List.map_append, List.map_cons, List.map_nil]
  | none =>
    cases hplan : plan.remaining with
    | nil => simp only [Option.map_none, unsigned, hplan, List.map_nil]
    | cons blocked rest =>
      have hblocked : blocked ∈ entities := hremaining (hplan ▸ List.mem_cons_self)
      have hunmet : ((unsignedEntity blocked).fields.filter
            (plan.unsigned.isUnmet (unsignedEntity blocked))) =
          blocked.fields.filter (plan.isUnmet blocked) := by
        have hfields : (unsignedEntity blocked).fields = blocked.fields.map unsignedField := rfl
        have hsame : plan.unsigned.isUnmet (unsignedEntity blocked) ∘ unsignedField =
            plan.isUnmet blocked := funext fun field => isUnmet_unsigned blocked field
        have hreference : ∀ field ∈ blocked.fields.filter (plan.isUnmet blocked),
            unsignedField field = id field := by
          intro field hfield
          obtain ⟨hmem, hunmet⟩ := List.mem_filter.mp hfield
          rw [isUnmet, Bool.and_eq_true, decide_eq_true_eq] at hunmet
          exact h.reference hblocked hmem hunmet.1
        rw [hfields, List.filter_map, hsame, List.map_congr_left hreference, List.map_id]
      have hremain : plan.unsigned.remaining = unsignedEntity blocked :: rest.map unsignedEntity := by
        rw [unsigned, hplan, List.map_cons]
      simp only [Option.map_none, hremain, hunmet]
      rw [unsigned, unsigned, hplan, List.map_cons]
      rfl

theorem remaining_round (plan : TableOrderPlan) : plan.round.remaining ⊆ plan.remaining := by
  rw [round]
  cases plan.remaining.find? plan.isReady with
  | some entity => exact List.erase_subset
  | none =>
    cases hplan : plan.remaining with
    | nil => rw [hplan]; exact List.Subset.refl _
    | cons blocked rest => exact List.Subset.refl _

theorem order_round (plan : TableOrderPlan) (hremaining : plan.remaining ⊆ entities)
    (horder : plan.order ⊆ entities) : plan.round.order ⊆ entities := by
  rw [round]
  cases hnext : plan.remaining.find? plan.isReady with
  | some entity =>
    have hentity := hremaining (List.mem_of_find?_eq_some hnext)
    exact List.append_subset.mpr ⟨horder, List.cons_subset.mpr ⟨hentity, List.nil_subset _⟩⟩
  | none =>
    cases plan.remaining with
    | nil => exact horder
    | cons blocked rest => exact horder

theorem rounds_unsigned (h : Orderable entities) (n : Nat) (plan : TableOrderPlan)
    (hdeferred : ∀ d ∈ plan.deferredFields, d.2.type = .reference)
    (hremaining : plan.remaining ⊆ entities) :
    TableOrderPlan.round^[n] plan.unsigned = (TableOrderPlan.round^[n] plan).unsigned := by
  induction n generalizing plan with
  | zero => rfl
  | succ n ih =>
    rw [Function.iterate_succ_apply, Function.iterate_succ_apply,
      round_unsigned h hdeferred hremaining]
    exact ih plan.round (deferred_round hdeferred) fun _ hentity =>
      hremaining (remaining_round plan hentity)

end TableOrderPlan

theorem planTableOrder_unsigned {entities : List EntityDef} (h : Orderable entities) :
    planTableOrder (entities.map unsignedEntity) = (planTableOrder entities).unsigned := by
  have hrounds := TableOrderPlan.rounds_unsigned h (2 * entities.length) ⟨entities, [], []⟩
    (fun d hd => absurd hd List.not_mem_nil) (List.Subset.refl _)
  rw [planTableOrder, planTableOrder, List.length_map]
  exact hrounds

theorem order_subset (entities : List EntityDef) : (planTableOrder entities).order ⊆ entities := by
  have hrounds : ∀ n (plan : TableOrderPlan), plan.remaining ⊆ entities → plan.order ⊆ entities →
      (TableOrderPlan.round^[n] plan).order ⊆ entities := by
    intro n
    induction n with
    | zero => exact fun _ _ horder => horder
    | succ n ih =>
      intro plan hremaining horder
      exact ih plan.round (fun _ hmem => hremaining (plan.remaining_round hmem))
        (plan.order_round hremaining horder)
  exact hrounds _ _ (List.Subset.refl _) (List.nil_subset _)

theorem sqlLiteral_unsignedValue (value : Literal) :
    sqlLiteral (unsignedValue value) = sqlLiteral value := by
  cases value with
  | num n => cases n <;> rfl
  | _ => rfl

theorem print_renderColumn_unsigned (field : FieldDef) (deferReference : Bool) :
    (renderColumn (unsignedField field) deferReference).print =
      (renderColumn field deferReference).print := by
  have hdefault : ((unsignedField field).default.map ColumnDefault.literal).map
        (fun default => "DEFAULT " ++ default.print) =
      (field.default.map ColumnDefault.literal).map fun default => "DEFAULT " ++ default.print := by
    rw [unsignedField]
    simp only [Option.map_map]
    refine congrArg (Option.map · field.default) (funext fun value => ?_)
    exact congrArg ("DEFAULT " ++ ·) (sqlLiteral_unsignedValue value)
  rw [ColumnDef.print, ColumnDef.print, renderColumn, hdefault]
  rfl

theorem print_renderEntityTable_unsigned {entities : List EntityDef} (h : Orderable entities)
    {deferred : Deferred} (hdeferred : ∀ d ∈ deferred, d.2.type = .reference)
    {entity : EntityDef} (hentity : entity ∈ entities) :
    (renderEntityTable (unsignedEntity entity) deferred).print =
      (renderEntityTable entity deferred).print := by
  have hcolumns : (renderEntityTable (unsignedEntity entity) deferred).columns.map ColumnDef.print =
      (renderEntityTable entity deferred).columns.map ColumnDef.print := by
    rw [renderEntityTable, renderEntityTable, unsignedEntity]
    simp only [List.map_cons, List.map_append, List.map_map]
    refine congrArg (fun columns => idColumn.print :: columns ++ _) ?_
    apply List.map_congr_left
    intro field hfield
    have hiff := h.deferred_iff hdeferred hentity hfield
    simp only [Function.comp_apply, print_renderColumn_unsigned, hiff]
  rw [TableDef.print, TableDef.print, hcolumns]
  rfl

theorem foreignKeys_unsigned {entities : List EntityDef} (h : Orderable entities)
    {deferred : Deferred} (hdeferred : ∀ d ∈ deferred, d.2.type = .reference)
    {entity : EntityDef} (hentity : entity ∈ entities) :
    foreignKeys (unsignedEntity entity) deferred = foreignKeys entity deferred := by
  have hfields : (unsignedEntity entity).fields = entity.fields.map unsignedField := rfl
  have hfilter : ((entity.fields.map unsignedField).filter
        fun field => ((unsignedEntity entity).name, field) ∈ deferred) =
      (entity.fields.filter fun field => (entity.name, field) ∈ deferred).map unsignedField := by
    rw [List.filter_map]
    congr 1
    apply List.filter_congr
    intro field hfield
    exact decide_eq_decide.mpr (h.deferred_iff hdeferred hentity hfield)
  rw [foreignKeys, foreignKeys, hfields, hfilter, List.map_map]
  rfl

theorem print_migration_unsigned {spec : AppSpec} (h : spec.valid = true) :
    (migration (unsignedSpec spec)).map Statement.print = (migration spec).map Statement.print := by
  have horderable := orderable_of_valid h
  have hdeferred := deferred_planTableOrder spec.entities
  have hplan : planTableOrder (unsignedSpec spec).entities =
      (planTableOrder spec.entities).unsigned := planTableOrder_unsigned horderable
  have htables : ((planTableOrder spec.entities).order.map unsignedEntity).map
        (fun entity => (renderEntityTable entity (planTableOrder spec.entities).deferredFields).print) =
      (planTableOrder spec.entities).order.map fun entity =>
        (renderEntityTable entity (planTableOrder spec.entities).deferredFields).print := by
    rw [List.map_map]
    apply List.map_congr_left
    intro entity hentity
    exact print_renderEntityTable_unsigned horderable hdeferred (order_subset _ hentity)
  have hkeys : ((planTableOrder spec.entities).order.map unsignedEntity).flatMap
        (fun entity => foreignKeys entity (planTableOrder spec.entities).deferredFields) =
      (planTableOrder spec.entities).order.flatMap fun entity =>
        foreignKeys entity (planTableOrder spec.entities).deferredFields := by
    rw [List.flatMap_map]
    apply List.flatMap_congr
    intro entity hentity
    exact foreignKeys_unsigned horderable hdeferred (order_subset _ hentity)
  have hjoins : ((unsignedSpec spec).entities.flatMap fun entity =>
        (joinTables entity).map Statement.createTable) =
      spec.entities.flatMap fun entity => (joinTables entity).map Statement.createTable :=
    List.flatMap_map ..
  rw [migration, migration, hplan, hjoins]
  simp only [TableOrderPlan.unsigned, List.map_append, List.map_cons, hkeys]
  refine congrArg (fun tables => (Statement.createExtension "pgcrypto").print :: tables ++ _ ++ _) ?_
  rw [List.map_map] at htables
  simp only [List.map_map]
  exact htables

theorem renderMigration_of_compilable {spec : AppSpec} (h : Compilable spec) :
    renderMigration spec = .ok ("CREATE EXTENSION IF NOT EXISTS pgcrypto;" ++ "\n\n" ++
      headerComment spec ++ "\n" ++
        String.intercalate "\n\n" ((migration spec).map Statement.print).tail ++ "\n") := by
  have hcompiles := compiles_iff.mpr h
  simp only [compiles, compileErrors, decide_eq_true_eq, List.append_eq_nil_iff] at hcompiles
  rw [renderMigration, if_neg (not_not.mpr hcompiles.2), ← List.map_tail]
  rfl

theorem compilable_of_compileApp {document : Json} {spec : AppSpec} {app : CompiledApp}
    (h : compileApp document spec = .ok app) : Compilable spec := by
  obtain ⟨sql, hsql, -⟩ := compileApp_eq_ok h
  apply compiles_iff.mp
  have hsqlErrors : collectSqlErrors spec = [] := by
    rw [renderMigration] at hsql
    split at hsql
    · cases hsql
    · rename_i herrors
      exact not_not.mp herrors
  have hsections : unsupportedSection "policies" (spec.policies.getD []).length ++
      unsupportedSection "evidence" (spec.evidence.getD []).length = [] := by
    rw [compileApp, hsql] at h
    by_contra hne
    exact absurd ((if_pos hne).symm.trans h) (by simp)
  rw [compiles, compileErrors, hsections, hsqlErrors]
  rfl

theorem compileApp_reprint {document : Json} {spec : AppSpec} (hvalid : spec.valid = true)
    {app : CompiledApp} (h : compileApp document spec = .ok app) :
    compileApp (reprint document) (unsignedSpec spec) = .ok app := by
  have hcompilable := compilable_of_compileApp h
  have hunsigned := compilable_unsignedSpec hcompilable
  obtain ⟨sql, hsql, rfl⟩ := compileApp_eq_ok h
  have hsame : renderMigration (unsignedSpec spec) = renderMigration spec := by
    rw [renderMigration_of_compilable hunsigned, renderMigration_of_compilable hcompilable,
      print_migration_unsigned hvalid]
    rfl
  have hsections : unsupportedSection "policies" ((unsignedSpec spec).policies.getD []).length ++
      unsupportedSection "evidence" ((unsignedSpec spec).evidence.getD []).length = [] := by
    rw [hunsigned.policies, hunsigned.evidence]
    rfl
  rw [compileApp, hsame, hsql, hsections, stringifyIndented_reprint]
  exact if_neg (not_not.mpr rfl)

end OpenRupiv.Compiler
