import OpenRupiv.Compiler.Tables
import OpenRupiv.Runtime.Calls
import OpenRupiv.Spec.Reordered

/-!
# What the compiler accepts

`Compilable` says without any order what `compileApp` accepts.  So neither the validation of a spec
nor its compilation depends on the order of the arrays.
-/

namespace OpenRupiv.Compiler

open Lib Spec

/-- The fields of an entity become columns of its table. -/
structure FieldsCompile (names : List String) (fields : List FieldDef) : Prop where
  columns : (fields.map columnName).Nodup
  free : ∀ field ∈ fields, columnName field ∉ RESERVED_COLUMNS
  values : ∀ field ∈ fields, field.type = .enum → field.values.getD [] ≠ []
  targets : ∀ field ∈ fields, field.type = .reference → ∃ target ∈ names, field.entity = some target

structure Compilable (spec : AppSpec) : Prop where
  policies : spec.policies.getD [] = []
  evidence : spec.evidence.getD [] = []
  tables : (spec.entities.flatMap tablesOf).Nodup
  fields : ∀ entity ∈ spec.entities, FieldsCompile (spec.entities.map (·.name)) entity.fields
  relations : ∀ entity ∈ spec.entities, ∀ relation ∈ entity.relations.getD [],
    relation.to ≠ entity.name ∧ relation.to ∈ spec.entities.map (·.name)

section Compilable

variable {spec : AppSpec}

theorem unsupportedSection_eq_nil_iff {α : Type} {name : String} {items : List α} :
    unsupportedSection name items.length = [] ↔ items = [] := by
  rw [unsupportedSection]
  cases items with
  | nil => simp
  | cons => simp

theorem claimTable_eq_nil_iff {origins : List TableClaim} {claim : TableClaim} :
    claimTable origins claim = [] ↔ claim.table ∉ origins.map (·.table) := by
  constructor
  · exact Runtime.claimTable_eq_nil
  · intro h
    have hnone : (origins.find? fun origin => origin.table = claim.table) = none := by
      apply List.find?_eq_none.mpr
      intro origin horigin heq
      exact h (List.mem_map.mpr ⟨origin, horigin, by simpa using heq⟩)
    rw [claimTable, hnone]

theorem originOf_eq_none_iff {path column : String} {before : List FieldDef} :
    originOf path before column = none ↔ column ∉ before.map columnName := by
  rw [originOf, Option.map_eq_none_iff, List.find?_eq_none]
  constructor
  · intro h hmem
    obtain ⟨field, hf, hcolumn⟩ := List.mem_map.mp hmem
    obtain ⟨i, hi⟩ := Runtime.exists_index hf
    exact h _ hi (by simpa using hcolumn)
  · intro h x hx heq
    apply h
    exact List.mem_map.mpr ⟨x.1, List.fst_mem_of_mem_zipIdx hx, by simpa using heq⟩

theorem columnErrors_eq_nil_iff {path : String} {j : Nat} {before : List FieldDef}
    {field : FieldDef} : columnErrors path j before field = [] ↔
      columnName field ∉ before.map columnName ∧ columnName field ∉ RESERVED_COLUMNS := by
  unfold columnErrors
  dsimp only
  by_cases hreserved : columnName field ∈ RESERVED_COLUMNS
  · simp [hreserved]
  · rw [if_neg hreserved]
    cases horigin : originOf path before (columnName field) with
    | none => simp [originOf_eq_none_iff.mp horigin, hreserved]
    | some origin =>
      have hmem : ¬columnName field ∉ before.map columnName := by
        intro hnot
        rw [originOf_eq_none_iff.mpr hnot] at horigin
        exact absurd horigin (by simp)
      simp only [hmem, false_and, iff_false]
      exact List.cons_ne_nil _ _

theorem enumErrors_eq_nil_iff {path : String} {field : FieldDef} :
    enumErrors path field = [] ↔ (field.type = .enum → field.values.getD [] ≠ []) := by
  simp only [enumErrors, ite_eq_right_iff, List.cons_ne_nil, imp_false, not_and, ne_eq]

theorem referenceErrors_eq_nil_iff {path : String} {field : FieldDef} :
    referenceErrors spec path field = [] ↔ (field.type = .reference →
      ∃ target ∈ spec.entities.map (·.name), field.entity = some target) := by
  by_cases href : field.type = .reference
  · cases htarget : field.entity with
    | none => simp [referenceErrors, href, htarget]
    | some target => simp [referenceErrors, href, htarget]
  · simp [referenceErrors, href]

theorem entries_fieldErrors_eq_nil_iff {path : String} {fields : List FieldDef} :
    entries fields (fieldErrors spec path) = [] ↔
      FieldsCompile (spec.entities.map (·.name)) fields := by
  have hone : entries fields (fieldErrors spec path) = [] ↔ (fields.map columnName).Nodup ∧
      ∀ field ∈ fields, columnName field ∉ RESERVED_COLUMNS ∧
        (field.type = .enum → field.values.getD [] ≠ []) ∧
        (field.type = .reference →
          ∃ target ∈ spec.entities.map (·.name), field.entity = some target) := by
    apply entries_named_eq_nil_iff
    intro i before field _
    rw [fieldErrors, List.append_eq_nil_iff, List.append_eq_nil_iff, columnErrors_eq_nil_iff,
      enumErrors_eq_nil_iff, referenceErrors_eq_nil_iff]
    tauto
  rw [hone]
  constructor
  · rintro ⟨hcolumns, hall⟩
    exact ⟨hcolumns, fun f hf => (hall f hf).1, fun f hf => (hall f hf).2.1,
      fun f hf => (hall f hf).2.2⟩
  · intro h
    exact ⟨h.columns, fun f hf => ⟨h.free f hf, h.values f hf, h.targets f hf⟩⟩

theorem mem_tablesOf_of_mem_claimsOf {i : Nat} {entity : EntityDef} {relations : List RelationDef}
    {table : String} (h : table ∈ (claimsOf spec i entity relations).map (·.table)) :
    table = tableName entity.name ∨
      table ∈ relations.map fun relation => joinTableName entity.name relation.name := by
  rw [claimsOf, List.map_cons, List.mem_cons] at h
  rcases h with rfl | h
  · exact .inl rfl
  · right
    obtain ⟨claim, hclaim, rfl⟩ := List.mem_map.mp h
    obtain ⟨x, hx, heq⟩ := List.mem_filterMap.mp hclaim
    unfold claimOfRelation at heq
    split at heq
    · exact absurd heq (by simp)
    · rw [← Option.some.inj heq]
      exact List.mem_map.mpr ⟨x.1, List.fst_mem_of_mem_zipIdx hx, rfl⟩

theorem mem_flatMap_tablesOf_of_mem_claimsBefore {before : List EntityDef} {table : String}
    (h : table ∈ (claimsBefore spec before).map (·.table)) : table ∈ before.flatMap tablesOf := by
  obtain ⟨claim, hclaim, rfl⟩ := List.mem_map.mp h
  obtain ⟨x, hx, hmem⟩ := List.mem_flatMap.mp hclaim
  apply List.mem_flatMap.mpr
  refine ⟨x.1, List.fst_mem_of_mem_zipIdx hx, ?_⟩
  rw [tablesOf, List.mem_cons]
  exact mem_tablesOf_of_mem_claimsOf (List.mem_map_of_mem hmem)

theorem entityErrors_eq_nil (h : Compilable spec) {before after : List EntityDef}
    {entity : EntityDef} (hentities : spec.entities = before ++ entity :: after) :
    entityErrors spec before.length before entity = [] := by
  have hmem : entity ∈ spec.entities := by simp [hentities]
  have htables := h.tables
  rw [hentities, List.flatMap_append, List.flatMap_cons, List.nodup_append] at htables
  obtain ⟨-, hrest, hdisjoint⟩ := htables
  have hown := (List.nodup_append.mp hrest).1
  have hfresh : ∀ table ∈ tablesOf entity, table ∉ (claimsBefore spec before).map (·.table) := by
    intro table htable hclaimed
    exact hdisjoint _ (mem_flatMap_tablesOf_of_mem_claimsBefore hclaimed) _
      (List.mem_append_left _ htable) rfl
  simp only [entityErrors, List.append_eq_nil_iff]
  refine ⟨⟨?_, entries_fieldErrors_eq_nil_iff.mpr (h.fields entity hmem)⟩, ?_⟩
  · exact claimTable_eq_nil_iff.mpr (hfresh _ List.mem_cons_self)
  · apply entries_eq_nil_iff.mpr
    intro pre relation post hrelations
    have hin : relation ∈ entity.relations.getD [] := by simp [hrelations]
    obtain ⟨hself, hknown⟩ := h.relations entity hmem relation hin
    simp only [relationErrors, claimOfRelation, hself, hknown, not_true, or_self, if_false,
      Option.elim_some]
    apply claimTable_eq_nil_iff.mpr
    rw [List.map_append, List.mem_append]
    rintro (hclaimed | hclaimed)
    · refine hfresh _ (List.mem_cons_of_mem _ ?_) hclaimed
      exact List.mem_map.mpr ⟨relation, hin, rfl⟩
    · -- the tables of the entity itself are distinct too
      rw [tablesOf, hrelations, List.map_append, List.map_cons, List.nodup_cons,
        List.nodup_append] at hown
      rcases mem_tablesOf_of_mem_claimsOf hclaimed with heq | hearlier
      · exact hown.1 (heq ▸ List.mem_append_right _ List.mem_cons_self)
      · exact hown.2.2.2 _ hearlier _ List.mem_cons_self rfl

/-- `compileApp` succeeds on exactly these specs. -/
theorem compiles_iff : compiles spec = true ↔ Compilable spec := by
  constructor
  · intro h
    have hsections := h
    simp only [compiles, compileErrors, decide_eq_true_eq, List.append_eq_nil_iff,
      unsupportedSection_eq_nil_iff] at hsections
    refine ⟨hsections.1.1, hsections.1.2, nodup_tables h, ?_, ?_⟩
    · intro entity he
      obtain ⟨before, after, hentities⟩ := List.append_of_mem he
      have hnil := Runtime.entity_compiles h hentities
      simp only [entityErrors, List.append_eq_nil_iff] at hnil
      exact entries_fieldErrors_eq_nil_iff.mp hnil.1.2
    · intro entity he relation hrelation
      obtain ⟨before, after, hentities⟩ := List.append_of_mem he
      obtain ⟨pre, post, hrelations⟩ := List.append_of_mem hrelation
      obtain ⟨hself, hknown, -⟩ := relation_compiles h hentities hrelations
      exact ⟨hself, hknown⟩
  · intro h
    have hentities : entries spec.entities (entityErrors spec) = [] := by
      apply entries_eq_nil_iff.mpr
      intro before entity after hsplit
      exact entityErrors_eq_nil h hsplit
    simp only [compiles, compileErrors, decide_eq_true_eq, List.append_eq_nil_iff,
      unsupportedSection_eq_nil_iff, collectSqlErrors]
    exact ⟨⟨h.policies, h.evidence⟩, hentities⟩

end Compilable

section Order

theorem FieldsCompile.reordered_iff {names names' : List String} (hnames : names.Perm names')
    {xs ys : List FieldDef} (h : PermOf FieldDef.Reordered xs ys) :
    FieldsCompile names xs ↔ FieldsCompile names' ys := by
  have hname : ∀ x y : FieldDef, x.Reordered y → columnName x = columnName y := by
    intro x y hxy
    rw [columnName, columnName, hxy.name, hxy.type]
  have hcolumns := h.map_perm hname
  have hfree : (∀ x ∈ xs, columnName x ∉ RESERVED_COLUMNS) ↔
      ∀ y ∈ ys, columnName y ∉ RESERVED_COLUMNS := by
    apply h.forall_iff
    intro x _ y _ hxy
    rw [hname x y hxy]
  have hvalues : (∀ x ∈ xs, x.type = .enum → x.values.getD [] ≠ []) ↔
      ∀ y ∈ ys, y.type = .enum → y.values.getD [] ≠ [] := by
    apply h.forall_iff
    intro x _ y _ hxy
    rw [hxy.type, ne_eq, ne_eq, (PermOf.of_perm (perm_getD hxy.values) Eq.refl).eq_nil_iff]
  have htargets : (∀ x ∈ xs, x.type = .reference → ∃ target ∈ names, x.entity = some target) ↔
      ∀ y ∈ ys, y.type = .reference → ∃ target ∈ names', y.entity = some target := by
    apply h.forall_iff
    intro x _ y _ hxy
    simp only [hxy.type, hxy.entity, hnames.mem_iff]
  constructor
  · intro hx
    exact ⟨hcolumns.nodup_iff.mp hx.columns, hfree.mp hx.free, hvalues.mp hx.values,
      htargets.mp hx.targets⟩
  · intro hy
    exact ⟨hcolumns.nodup_iff.mpr hy.columns, hfree.mpr hy.free, hvalues.mpr hy.values,
      htargets.mpr hy.targets⟩

theorem compilable_iff_of_reordered {x y : AppSpec} (h : x.Reordered y) :
    Compilable x ↔ Compilable y := by
  have hnil : ∀ {α : Type} {xs ys : Option (List α)}, Option.Rel List.Perm xs ys →
      (xs.getD [] = [] ↔ ys.getD [] = []) := by
    intro α xs ys hperm
    exact (PermOf.of_perm (perm_getD hperm) Eq.refl).eq_nil_iff
  have hnames : (x.entities.map (·.name)).Perm (y.entities.map (·.name)) :=
    h.entities.map_perm fun _ _ he => he.name
  have htables : (x.entities.flatMap tablesOf).Perm (y.entities.flatMap tablesOf) := by
    apply h.entities.flatMap_perm
    intro e f he
    rw [tablesOf, tablesOf, he.name]
    exact ((perm_getD he.relations).map _).cons _
  have hfields := h.entities.forall_iff fun e _ f _ (he : e.Reordered f) =>
    FieldsCompile.reordered_iff hnames he.fields
  have hrelations : (∀ entity ∈ x.entities, ∀ relation ∈ entity.relations.getD [],
        relation.to ≠ entity.name ∧ relation.to ∈ x.entities.map (·.name)) ↔
      ∀ entity ∈ y.entities, ∀ relation ∈ entity.relations.getD [],
        relation.to ≠ entity.name ∧ relation.to ∈ y.entities.map (·.name) := by
    apply h.entities.forall_iff
    intro e _ f _ he
    simp only [(perm_getD he.relations).mem_iff, he.name, hnames.mem_iff]
  constructor
  · intro hx
    exact ⟨(hnil h.policies).mp hx.policies, (hnil h.evidence).mp hx.evidence,
      htables.nodup_iff.mp hx.tables, hfields.mp hx.fields, hrelations.mp hx.relations⟩
  · intro hy
    exact ⟨(hnil h.policies).mpr hy.policies, (hnil h.evidence).mpr hy.evidence,
      htables.nodup_iff.mpr hy.tables, hfields.mpr hy.fields, hrelations.mpr hy.relations⟩

/-- Specs that differ in the order of their arrays are accepted alike, by `validateSpec` and by
`compileApp`. -/
theorem order_keeps_acceptance {x y : AppSpec} (h : x.Reordered y) :
    (x.valid = true ↔ y.valid = true) ∧ (compiles x = true ↔ compiles y = true) := by
  refine ⟨h.valid_iff, ?_⟩
  rw [compiles_iff, compiles_iff, compilable_iff_of_reordered h]

open OpenRupiv.Runtime in
theorem order_keeps_acceptance_vendors :
    ((vendors [vendorApproval, riskReview]).valid = true ↔
        (vendors [riskReview, vendorApproval]).valid = true) ∧
      (compiles (vendors [vendorApproval, riskReview]) = true ↔
        compiles (vendors [riskReview, vendorApproval]) = true) := by
  apply order_keeps_acceptance
  refine ⟨rfl, .refl _, .of_perm (.refl _) EntityDef.Reordered.refl, .none, .some ?_, .none, .none,
    .none⟩
  exact .of_perm (.swap _ _ _) WorkflowDef.Reordered.refl

end Order

end OpenRupiv.Compiler
