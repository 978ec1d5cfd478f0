import OpenRupiv.Compiler.Migration
import OpenRupiv.Lib.Protocol

/-!
# The tables of a migration

In which order they come, and that no two of them have one name.
-/

namespace OpenRupiv.Compiler

open Js Lib Spec

/-- The tables that are declared by an entity. -/
def tablesOf (entity : EntityDef) : List String :=
  tableName entity.name ::
    (entity.relations.getD []).map fun relation => joinTableName entity.name relation.name

section Names

variable {spec : AppSpec}

/-- A relation of an app that compiles leads to another entity, and claims a table of its own. -/
theorem relation_compiles (h : compiles spec = true) {before after : List EntityDef}
    {entity : EntityDef} (hentities : spec.entities = before ++ entity :: after)
    {pre post : List RelationDef} {relation : RelationDef}
    (hrelations : entity.relations.getD [] = pre ++ relation :: post) :
    relation.to ≠ entity.name ∧ relation.to ∈ spec.entities.map (·.name) ∧
      joinTableName entity.name relation.name ∉
        (claimsBefore spec before ++ claimsOf spec before.length entity pre).map (·.table) := by
  have hnil := Runtime.entity_compiles h hentities
  simp only [entityErrors, List.append_eq_nil_iff] at hnil
  have hrelation := entries_eq_nil_iff.mp hnil.2 pre relation post hrelations
  unfold relationErrors at hrelation
  dsimp only at hrelation
  split at hrelation
  · exact absurd hrelation (by simp)
  rename_i hself
  split at hrelation
  · exact absurd hrelation (by simp)
  rename_i hknown
  refine ⟨hself, not_not.mp hknown, ?_⟩
  simp only [claimOfRelation, hself, hknown, or_self, if_false, Option.elim_some] at hrelation
  exact Runtime.claimTable_eq_nil hrelation

private theorem mem_claimsOf {i : Nat} {entity : EntityDef} {relations : List RelationDef}
    (hrelations : ∀ relation ∈ relations, relation.to ≠ entity.name ∧
      relation.to ∈ spec.entities.map (·.name)) {table : String}
    (h : table = tableName entity.name ∨ ∃ relation ∈ relations,
      table = joinTableName entity.name relation.name) :
    table ∈ (claimsOf spec i entity relations).map (·.table) := by
  rw [claimsOf, List.map_cons, List.mem_cons]
  rcases h with rfl | ⟨relation, hrelation, rfl⟩
  · exact .inl rfl
  · right
    obtain ⟨j, hj⟩ := Runtime.exists_index hrelation
    obtain ⟨hself, hknown⟩ := hrelations relation hrelation
    apply List.mem_map.mpr
    refine ⟨_, List.mem_filterMap.mpr ⟨(relation, j), hj, if_neg ?_⟩, rfl⟩
    rw [not_or, not_not]
    exact ⟨hself, hknown⟩

private theorem mem_claims_of_mem_tablesOf (h : compiles spec = true) {before after : List EntityDef}
    (hentities : spec.entities = before ++ after) {table : String}
    (hmem : table ∈ before.flatMap tablesOf) : table ∈ (claimsBefore spec before).map (·.table) := by
  obtain ⟨entity, he, htable⟩ := List.mem_flatMap.mp hmem
  obtain ⟨i, hi⟩ := Runtime.exists_index he
  have hclaims : table ∈ (claimsOf spec i entity (entity.relations.getD [])).map (·.table) := by
    apply mem_claimsOf
    · intro relation hrelation
      obtain ⟨pre, post, hsplit⟩ := List.append_of_mem he
      obtain ⟨pre', post', hsplit'⟩ := List.append_of_mem hrelation
      rw [hsplit, List.append_assoc, List.cons_append] at hentities
      obtain ⟨hself, hknown, -⟩ := relation_compiles h hentities hsplit'
      exact ⟨hself, hknown⟩
    · rcases List.mem_cons.mp htable with rfl | htable
      · exact .inl rfl
      · obtain ⟨relation, hrelation, rfl⟩ := List.mem_map.mp htable
        exact .inr ⟨relation, hrelation, rfl⟩
  obtain ⟨claim, hclaim, rfl⟩ := List.mem_map.mp hclaims
  exact List.mem_map_of_mem (List.mem_flatMap.mpr ⟨(entity, i), hi, hclaim⟩)

private theorem nodup_joinTables (h : compiles spec = true) {before after : List EntityDef}
    {entity : EntityDef} (hentities : spec.entities = before ++ entity :: after) :
    ((entity.relations.getD []).map fun relation =>
      joinTableName entity.name relation.name).Nodup := by
  apply nodup_of_entries
  intro pre relation post hrelations hmem
  obtain ⟨-, -, hnew⟩ := relation_compiles h hentities hrelations
  apply hnew
  rw [List.map_append, List.mem_append]
  right
  apply mem_claimsOf
  · intro other hother
    obtain ⟨pre', post', rfl⟩ := List.append_of_mem hother
    obtain ⟨hself, hknown, -⟩ := relation_compiles h hentities
      (hrelations.trans (List.append_assoc pre' (other :: post') (relation :: post)))
    exact ⟨hself, hknown⟩
  · obtain ⟨other, hother, heq⟩ := List.mem_map.mp hmem
    exact .inr ⟨other, hother, heq.symm⟩

theorem nodup_tables (h : compiles spec = true) : (spec.entities.flatMap tablesOf).Nodup := by
  suffices hall : ∀ before after, spec.entities = before ++ after →
      (before.flatMap tablesOf).Nodup from hall spec.entities [] (List.append_nil _).symm
  intro before
  induction before using List.reverseRecOn with
  | nil =>
    intro after _
    exact List.nodup_nil
  | append_singleton before entity ih =>
    intro after hentities
    rw [List.append_assoc, List.singleton_append] at hentities
    rw [List.flatMap_append, List.flatMap_singleton, List.nodup_append]
    refine ⟨ih _ hentities, ?_, ?_⟩
    · rw [tablesOf, List.nodup_cons]
      refine ⟨?_, nodup_joinTables h hentities⟩
      intro hmem
      obtain ⟨relation, hrelation, heq⟩ := List.mem_map.mp hmem
      obtain ⟨pre, post, hsplit⟩ := List.append_of_mem hrelation
      obtain ⟨-, -, hnew⟩ := relation_compiles h hentities hsplit
      apply hnew
      rw [heq, List.map_append, List.mem_append]
      exact .inr List.mem_cons_self
    · rintro table hold table' hnew rfl
      have hclaimed := mem_claims_of_mem_tablesOf h hentities hold
      rcases List.mem_cons.mp hnew with rfl | hnew
      · have hnil := Runtime.entity_compiles h hentities
        simp only [entityErrors, List.append_eq_nil_iff] at hnil
        exact Runtime.claimTable_eq_nil hnil.1.1 hclaimed
      · obtain ⟨relation, hrelation, rfl⟩ := List.mem_map.mp hnew
        obtain ⟨pre, post, hsplit⟩ := List.append_of_mem hrelation
        obtain ⟨-, -, hnew⟩ := relation_compiles h hentities hsplit
        apply hnew
        rw [List.map_append, List.mem_append]
        exact .inl hclaimed

end Names

namespace TableOrderPlan

variable {entities : List EntityDef} {plan : TableOrderPlan}

/-- What an entity refers to comes before it, or the foreign key is deferred. -/
structure Ordered (entities : List EntityDef) (plan : TableOrderPlan) : Prop where
  perm : (plan.order ++ plan.remaining).Perm entities
  refers : ∀ before entity after, plan.order = before ++ entity :: after →
    ∀ field ∈ entity.fields, field.type = .reference → ∀ target, field.entity = some target →
      target = entity.name ∨ target ∈ before.map (·.name) ∨
        (entity.name, field) ∈ plan.deferredFields

theorem isUnmet_eq_false {entity : EntityDef} {field : FieldDef}
    (h : plan.isUnmet entity field = false) (htype : field.type = .reference) {target : String}
    (htarget : field.entity = some target) :
    target = entity.name ∨ target ∈ plan.order.map (·.name) := by
  simp only [isUnmet, htype, decide_true, Bool.true_and, htarget, Option.any_some,
    Bool.and_eq_false_iff, decide_eq_false_iff_not, not_not, Bool.not_eq_false'] at h
  rcases h with h | h
  · exact .inl h
  · obtain ⟨e, he, hname⟩ := List.any_eq_true.mp h
    exact .inr (List.mem_map.mpr ⟨e, he, by simpa using hname⟩)

theorem Ordered.round (h : plan.Ordered entities) : plan.round.Ordered entities := by
  unfold TableOrderPlan.round
  cases hfind : plan.remaining.find? plan.isReady with
  | some entity =>
    have hmem := List.mem_of_find?_eq_some hfind
    have hready := List.find?_some hfind
    constructor
    · dsimp only
      rw [List.append_assoc, List.singleton_append]
      exact ((List.perm_cons_erase hmem).symm.append_left plan.order).trans h.perm
    · intro before e after hsplit field hfield htype target htarget
      dsimp only at hsplit ⊢
      rcases concat_eq_split hsplit with ⟨rfl, rfl, rfl⟩ | ⟨l, rfl, horder⟩
      · -- the entity that is emitted now
        have hchecked := List.all_eq_true.mp hready field hfield
        rw [Bool.or_eq_true, Bool.not_eq_true', decide_eq_true_eq] at hchecked
        rcases hchecked with hmet | hdeferred
        · exact (isUnmet_eq_false hmet htype htarget).imp_right .inl
        · exact .inr (.inr hdeferred)
      · exact h.refers before e l horder field hfield htype target htarget
  | none =>
    cases hremaining : plan.remaining with
    | nil => exact h
    | cons blocked rest =>
      refine ⟨by simpa [hremaining] using h.perm, ?_⟩
      intro before e after hsplit field hfield htype target htarget
      rcases h.refers before e after hsplit field hfield htype target htarget with h | h | h
      · exact .inl h
      · exact .inr (.inl h)
      · exact .inr (.inr (List.mem_append_left _ h))

theorem length_remaining_round_round (plan : TableOrderPlan) :
    plan.round.round.remaining.length ≤ plan.remaining.length - 1 := by
  have hle : ∀ p : TableOrderPlan, p.round.remaining.length ≤ p.remaining.length := by
    intro p
    unfold TableOrderPlan.round
    split
    · exact List.length_erase_le
    · split <;> exact le_rfl
  have hready : ∀ (p : TableOrderPlan) {entity : EntityDef},
      p.remaining.find? p.isReady = some entity →
      p.round.remaining.length = p.remaining.length - 1 := by
    intro p entity hfind
    simp only [TableOrderPlan.round, hfind]
    exact List.length_erase_of_mem (List.mem_of_find?_eq_some hfind)
  cases hfind : plan.remaining.find? plan.isReady with
  | some entity => exact (hle plan.round).trans (hready plan hfind).le
  | none =>
    cases hremaining : plan.remaining with
    | nil =>
      refine (hle _).trans ((hle _).trans ?_)
      rw [hremaining]
      exact le_rfl
    | cons blocked rest =>
      -- the entity whose foreign keys were deferred is ready
      have hround : plan.round = { plan with
          deferredFields := plan.deferredFields ++
            (blocked.fields.filter (plan.isUnmet blocked)).map fun field =>
              (blocked.name, field) } := by
        simp only [TableOrderPlan.round, hfind]
        rw [hremaining]
      have hblocked : plan.round.isReady blocked = true := by
        rw [hround]
        apply List.all_eq_true.mpr
        intro field hfield
        cases hunmet : plan.isUnmet blocked field with
        | false =>
          rw [Bool.or_eq_true]
          exact .inl ((Bool.not_eq_true' _).mpr hunmet)
        | true =>
          rw [Bool.or_eq_true, decide_eq_true_eq]
          right
          apply List.mem_append_right
          exact List.mem_map.mpr ⟨field, List.mem_filter.mpr ⟨hfield, hunmet⟩, rfl⟩
      have hhead : plan.round.remaining = blocked :: rest := by rw [hround, hremaining]
      have hfound : plan.round.remaining.find? plan.round.isReady = some blocked := by
        rw [hhead, List.find?_cons, hblocked]
      rw [hready plan.round hfound, hhead]

end TableOrderPlan

theorem ordered_planTableOrder (entities : List EntityDef) :
    (planTableOrder entities).Ordered entities := by
  have hrounds : ∀ n (plan : TableOrderPlan), plan.Ordered entities →
      (TableOrderPlan.round^[n] plan).Ordered entities := by
    intro n
    induction n with
    | zero =>
      intro plan h
      exact h
    | succ n ih =>
      intro plan h
      exact ih plan.round h.round
  apply hrounds
  refine ⟨List.Perm.refl _, ?_⟩
  intro before entity after hsplit
  exact absurd hsplit (by simp)

theorem remaining_planTableOrder (entities : List EntityDef) :
    (planTableOrder entities).remaining = [] := by
  have hrounds : ∀ n (plan : TableOrderPlan),
      (TableOrderPlan.round^[2 * n] plan).remaining.length ≤ plan.remaining.length - n := by
    intro n
    induction n with
    | zero =>
      intro plan
      exact le_rfl
    | succ n ih =>
      intro plan
      have hnext := ih plan.round.round
      have hround := plan.length_remaining_round_round
      rw [show 2 * (n + 1) = 2 * n + 2 from by omega, Function.iterate_add_apply]
      change (TableOrderPlan.round^[2 * n] plan.round.round).remaining.length ≤ _
      omega
  apply List.eq_nil_of_length_eq_zero
  have hlength := hrounds entities.length ⟨entities, [], []⟩
  exact Nat.eq_zero_of_le_zero (hlength.trans (by simp))

theorem perm_planTableOrder (entities : List EntityDef) :
    (planTableOrder entities).order.Perm entities := by
  have hperm := (ordered_planTableOrder entities).perm
  rwa [remaining_planTableOrder, List.append_nil] at hperm

/-- The tables that the migration creates. -/
def tables (spec : AppSpec) : List TableDef :=
  (migration spec).filterMap fun
    | .createTable table => some table
    | _ => none

def entityTableDef (spec : AppSpec) (entity : EntityDef) : TableDef :=
  renderEntityTable entity (planTableOrder spec.entities).deferredFields

section Created

variable {spec : AppSpec} {entity : EntityDef} {table : TableDef}

theorem mem_tables : table ∈ tables spec ↔
    (∃ entity ∈ spec.entities, table = entityTableDef spec entity) ∨
      ∃ entity ∈ spec.entities, table ∈ joinTables entity := by
  simp only [tables, migration, entityTableDef, List.mem_filterMap, List.mem_append, List.mem_cons,
    List.mem_map, List.mem_flatMap, (perm_planTableOrder spec.entities).mem_iff, foreignKeys]
  constructor
  · rintro ⟨statement, hstatement, heq⟩
    rcases hstatement with ((rfl | ⟨entity, he, rfl⟩) | ⟨entity, he, field, -, rfl⟩) |
      ⟨entity, he, join, hjoin, rfl⟩
    · cases heq
    · exact .inl ⟨entity, he, (Option.some.inj heq).symm⟩
    · cases heq
    · exact .inr ⟨entity, he, Option.some.inj heq ▸ hjoin⟩
  · rintro (⟨entity, he, rfl⟩ | ⟨entity, he, hjoin⟩)
    · exact ⟨_, .inl (.inl (.inr ⟨entity, he, rfl⟩)), rfl⟩
    · exact ⟨_, .inr ⟨entity, he, table, hjoin, rfl⟩, rfl⟩

theorem name_of_mem_joinTables (h : table ∈ joinTables entity) :
    table.name ∈ (entity.relations.getD []).map fun relation =>
      joinTableName entity.name relation.name := by
  obtain ⟨relation, hrelation, rfl⟩ := List.mem_map.mp h
  exact List.mem_map.mpr ⟨relation, hrelation, rfl⟩

theorem eq_entityTableDef (h : compiles spec = true) (he : entity ∈ spec.entities)
    (htable : table ∈ tables spec) (hname : table.name = tableName entity.name) :
    table = entityTableDef spec entity := by
  obtain ⟨before, after, hentities⟩ := List.append_of_mem he
  have hnodup := nodup_tables h
  rcases mem_tables.mp htable with ⟨other, hother, rfl⟩ | ⟨other, hother, hjoin⟩
  · have hsame : other = entity := by
      apply List.inj_on_of_nodup_map (Runtime.nodup_entityTables h) hother he
      rw [Runtime.entityTable, Runtime.entityTable, ← Runtime.snakeCase_eq_toSnakeCase,
        ← Runtime.snakeCase_eq_toSnakeCase]
      exact hname
    rw [hsame]
  · -- a join table has another name
    exfalso
    have hmem := name_of_mem_joinTables hjoin
    rw [hname] at hmem
    rw [hentities, List.flatMap_append, List.flatMap_cons] at hnodup
    rw [hentities, List.mem_append, List.mem_cons] at hother
    obtain ⟨-, hmiddle, hleft⟩ := List.nodup_append.mp hnodup
    obtain ⟨hown, -, hright⟩ := List.nodup_append.mp hmiddle
    have hentity : tableName entity.name ∈ tablesOf entity := List.mem_cons_self
    rcases hother with hother | rfl | hother
    · exact hleft _ (List.mem_flatMap.mpr ⟨other, hother, List.mem_cons_of_mem _ hmem⟩) _
        (List.mem_append_left _ hentity) rfl
    · exact (List.nodup_cons.mp hown).1 hmem
    · exact hright _ hentity _ (List.mem_flatMap.mpr ⟨other, hother, List.mem_cons_of_mem _ hmem⟩) rfl

theorem entityTableDef_mem (he : entity ∈ spec.entities) :
    entityTableDef spec entity ∈ tables spec :=
  mem_tables.mpr (.inl ⟨entity, he, rfl⟩)

theorem mem_columns_entityTableDef {column : ColumnDef} :
    column ∈ (entityTableDef spec entity).columns ↔ column = idColumn ∨
      (∃ field ∈ entity.fields, ∃ deferReference, column = renderColumn field deferReference ∧
        (deferReference = true ↔
          (entity.name, field) ∈ (planTableOrder spec.entities).deferredFields)) ∨
      column = timeColumn "created_at" ∨ column = timeColumn "updated_at" := by
  simp only [entityTableDef, renderEntityTable, List.cons_append, List.mem_cons, List.mem_append,
    List.mem_map, List.not_mem_nil, or_false]
  refine or_congr_right (or_congr_left ?_)
  constructor
  · rintro ⟨field, hfield, rfl⟩
    exact ⟨field, hfield, _, rfl, decide_eq_true_iff⟩
  · rintro ⟨field, hfield, deferReference, rfl, hdefer⟩
    refine ⟨field, hfield, ?_⟩
    congr 1
    rw [Bool.eq_iff_iff, decide_eq_true_iff, hdefer]

end Created

end OpenRupiv.Compiler
