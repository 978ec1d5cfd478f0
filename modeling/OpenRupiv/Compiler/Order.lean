import OpenRupiv.Compiler.Tables
import OpenRupiv.Lib.Topological

/-!
# The plan of the tables

The order of the tables is the topological order that is least in the order of the spec, when the
references between entities have no cycle; and whatever they are, every reference gets one foreign
key.
-/

namespace OpenRupiv.Compiler

open Lib Spec

/-- References of an entity to another one. -/
def Refers (entities : List EntityDef) (a b : EntityDef) : Prop :=
  a ∈ entities ∧ b ∈ entities ∧ b.name ≠ a.name ∧
    ∃ field ∈ a.fields, field.type = .reference ∧ field.entity = some b.name

structure ForeignKey where
  table : String
  column : String
  target : String

def Statement.keys : Statement → List ForeignKey
  | .createExtension _ => []
  | .createTable table => table.columns.filterMap fun column =>
      column.references.map fun target => ⟨table.name, column.name, target⟩
  | .addForeignKey table _ column target => [⟨table, column, target⟩]

def referenceKey (entity : EntityDef) (field : FieldDef) : ForeignKey :=
  ⟨tableName entity.name, columnName field, tableName (field.entity.getD "")⟩

def referenceKeys (entity : EntityDef) : List ForeignKey :=
  (entity.fields.filter fun field => field.type = .reference).map (referenceKey entity)

def joinKeys (entity : EntityDef) (relation : RelationDef) : List ForeignKey :=
  [tableName entity.name, tableName relation.to].map fun target =>
    ⟨joinTableName entity.name relation.name, target ++ "_id", target⟩

section Keys

variable {entity : EntityDef} {deferredFields : Deferred}

theorem keys_renderEntityTable :
    (Statement.createTable (renderEntityTable entity deferredFields)).keys =
      (entity.fields.filter fun field =>
        field.type = .reference && (entity.name, field) ∉ deferredFields).map
          (referenceKey entity) := by
  simp only [Statement.keys, renderEntityTable, List.filterMap_append, List.filterMap_cons,
    List.filterMap_nil, List.filterMap_map, idColumn, timeColumn, Option.map_none, List.append_nil,
    List.cons_append]
  induction entity.fields with
  | nil => rfl
  | cons field fields ih =>
    rw [List.filterMap_cons, List.filter_cons, ih]
    by_cases htype : field.type = .reference
    · by_cases hdeferred : (entity.name, field) ∈ deferredFields
      · simp [renderColumn, htype, hdeferred]
      · simp [renderColumn, htype, hdeferred, referenceKey]
    · simp [renderColumn, htype]

theorem keys_foreignKeys :
    (foreignKeys entity deferredFields).flatMap Statement.keys =
      (entity.fields.filter fun field => (entity.name, field) ∈ deferredFields).map
        (referenceKey entity) := by
  rw [foreignKeys, List.flatMap_map, List.map_eq_flatMap]
  rfl

theorem keys_of_entity
    (hdeferred : ∀ field, (entity.name, field) ∈ deferredFields → field.type = .reference) :
    ((Statement.createTable (renderEntityTable entity deferredFields)).keys ++
      (foreignKeys entity deferredFields).flatMap Statement.keys).Perm (referenceKeys entity) := by
  rw [keys_renderEntityTable, keys_foreignKeys, ← List.map_append, referenceKeys]
  apply List.Perm.map
  have hinline : (entity.fields.filter fun field =>
      field.type = .reference && (entity.name, field) ∉ deferredFields) =
      (entity.fields.filter fun field => field.type = .reference).filter fun field =>
        !decide ((entity.name, field) ∈ deferredFields) := by
    rw [List.filter_filter]
    apply List.filter_congr
    intro field _
    simp [Bool.and_comm]
  have haltered : (entity.fields.filter fun field => (entity.name, field) ∈ deferredFields) =
      (entity.fields.filter fun field => field.type = .reference).filter fun field =>
        (entity.name, field) ∈ deferredFields := by
    rw [List.filter_filter]
    apply List.filter_congr
    intro field _
    by_cases hmem : (entity.name, field) ∈ deferredFields
    · simp [hmem, hdeferred field hmem]
    · simp [hmem]
  rw [hinline, haltered]
  exact List.perm_append_comm.trans (List.filter_append_perm _ _)

theorem keys_joinTables (entity : EntityDef) :
    ((joinTables entity).flatMap fun table => (Statement.createTable table).keys) =
      (entity.relations.getD []).flatMap (joinKeys entity) := by
  rw [joinTables, List.flatMap_map]
  rfl

end Keys

namespace TableOrderPlan

variable {entities : List EntityDef} {plan : TableOrderPlan}

theorem deferred_round (h : ∀ d ∈ plan.deferredFields, d.2.type = .reference) :
    ∀ d ∈ plan.round.deferredFields, d.2.type = .reference := by
  unfold TableOrderPlan.round
  split
  · exact h
  · split
    · exact h
    · rename_i blocked _ _
      intro d hd
      rcases List.mem_append.mp hd with hd | hd
      · exact h d hd
      · obtain ⟨field, hfield, rfl⟩ := List.mem_map.mp hd
        have hunmet := (List.mem_filter.mp hfield).2
        rw [isUnmet, Bool.and_eq_true, decide_eq_true_eq] at hunmet
        exact hunmet.1

end TableOrderPlan

theorem deferred_planTableOrder (entities : List EntityDef) :
    ∀ d ∈ (planTableOrder entities).deferredFields, d.2.type = .reference := by
  have hrounds : ∀ n (plan : TableOrderPlan), (∀ d ∈ plan.deferredFields, d.2.type = .reference) →
      ∀ d ∈ (TableOrderPlan.round^[n] plan).deferredFields, d.2.type = .reference := by
    intro n
    induction n with
    | zero =>
      intro plan h
      exact h
    | succ n ih =>
      intro plan h
      exact ih plan.round (TableOrderPlan.deferred_round h)
  apply hrounds
  intro d hd
  exact absurd hd List.not_mem_nil

theorem keys_migration (spec : AppSpec) :
    ((migration spec).flatMap Statement.keys).Perm
      (spec.entities.flatMap referenceKeys ++
        spec.entities.flatMap fun entity => (entity.relations.getD []).flatMap (joinKeys entity)) := by
  have hdeferred := deferred_planTableOrder spec.entities
  have hperm := perm_planTableOrder spec.entities
  rw [migration]
  generalize planTableOrder spec.entities = plan at hdeferred hperm
  simp only [List.flatMap_append, List.flatMap_cons, List.flatMap_map, List.flatMap_assoc,
    keys_joinTables, List.cons_append]
  rw [show (Statement.createExtension "pgcrypto").keys = [] from rfl, List.nil_append]
  apply List.Perm.append_right
  refine (List.flatMap_append_perm _ _ _).trans ?_
  refine List.Perm.trans ?_ (hperm.flatMap_right referenceKeys)
  apply List.Perm.flatMap_left
  intro entity _
  exact keys_of_entity fun field hfield => hdeferred _ hfield

section Acyclic

variable {entities : List EntityDef} {plan : TableOrderPlan}
  (hnames : (entities.map (·.name)).Nodup)
  (hknown : ∀ entity ∈ entities, ∀ field ∈ entity.fields, field.type = .reference →
    ∃ target ∈ entities, field.entity = some target.name)
include hnames hknown

theorem isReady_iff (hdeferred : plan.deferredFields = [])
    (horder : ∀ entity ∈ plan.order, entity ∈ entities) {entity : EntityDef}
    (he : entity ∈ entities) :
    plan.isReady entity = true ↔ Ready (Refers entities) plan.order entity := by
  simp only [TableOrderPlan.isReady, hdeferred, List.all_eq_true, Bool.or_eq_true,
    Bool.not_eq_true', List.not_mem_nil, decide_false, Bool.false_eq_true, or_false]
  constructor
  · rintro hall target ⟨-, ht, hne, field, hfield, htype, htarget⟩
    have hmet := hall field hfield
    rcases TableOrderPlan.isUnmet_eq_false hmet htype htarget with heq | hmem
    · exact absurd heq hne
    · obtain ⟨other, hother, hname⟩ := List.mem_map.mp hmem
      rwa [← List.inj_on_of_nodup_map hnames (horder other hother) ht hname]
  · intro hready field hfield
    by_contra hunmet
    rw [Bool.not_eq_false] at hunmet
    simp only [TableOrderPlan.isUnmet, Bool.and_eq_true, decide_eq_true_eq] at hunmet
    obtain ⟨htype, hany⟩ := hunmet
    obtain ⟨target, ht, htarget⟩ := hknown entity he field hfield htype
    rw [htarget, Option.any_some, Bool.and_eq_true, decide_eq_true_eq, Bool.not_eq_true'] at hany
    have hemitted := hready target ⟨he, ht, hany.1, field, hfield, htype, htarget⟩
    have hnot := List.any_eq_false.mp hany.2 target hemitted
    simp at hnot

variable (hacyclic : ∀ entity, ¬Relation.TransGen (Refers entities) entity entity)
include hacyclic

/-- Every round emits the first entity that is ready, and nothing is deferred. -/
theorem greedy_rounds (n : Nat) (hdeferred : plan.deferredFields = [])
    (hperm : (plan.order ++ plan.remaining).Perm entities) (hn : plan.remaining.length ≤ n) :
    ∃ rest, Greedy (Refers entities) plan.order plan.remaining rest ∧
      TableOrderPlan.round^[n] plan =
        { remaining := [], order := plan.order ++ rest, deferredFields := [] } := by
  induction n generalizing plan with
  | zero =>
    have hnil : plan.remaining = [] := List.eq_nil_of_length_eq_zero (by omega)
    refine ⟨[], by rw [hnil]; exact .nil, ?_⟩
    rw [List.append_nil, Function.iterate_zero_apply, ← hnil, ← hdeferred]
  | succ n ih =>
    rw [Function.iterate_succ_apply]
    have hmem : ∀ entity ∈ plan.order ++ plan.remaining, entity ∈ entities :=
      fun entity he => hperm.subset he
    have horder : ∀ entity ∈ plan.order, entity ∈ entities :=
      fun entity he => hmem entity (List.mem_append_left _ he)
    by_cases hnil : plan.remaining = []
    · -- nothing is left to do
      have hround : plan.round = plan := by
        simp [TableOrderPlan.round, hnil]
      rw [hround]
      exact ih hdeferred hperm (by rw [hnil]; exact Nat.zero_le n)
    · have hclosed : ∀ a ∈ plan.remaining, ∀ b, Refers entities a b →
          b ∈ plan.order ∨ b ∈ plan.remaining := by
        intro a _ b hrefers
        exact List.mem_append.mp (hperm.symm.subset hrefers.2.1)
      obtain ⟨first, hfirst, hready⟩ := exists_ready hacyclic hnil hclosed
      have hfirstReady := (isReady_iff hnames hknown hdeferred horder
        (hmem first (List.mem_append_right _ hfirst))).mpr hready
      cases hfind : plan.remaining.find? plan.isReady with
      | none => exact absurd hfirstReady (by simpa using List.find?_eq_none.mp hfind first hfirst)
      | some entity =>
        obtain ⟨hentity, before, after, hsplit, hbefore⟩ := List.find?_eq_some_iff_append.mp hfind
        have hin : entity ∈ plan.remaining := List.mem_of_find?_eq_some hfind
        have hround : plan.round =
            { plan with
              remaining := plan.remaining.erase entity, order := plan.order ++ [entity] } := by
          simp only [TableOrderPlan.round, hfind]
        have hperm' : (plan.round.order ++ plan.round.remaining).Perm entities := by
          rw [hround, List.append_assoc, List.singleton_append]
          exact ((List.perm_cons_erase hin).symm.append_left plan.order).trans hperm
        have hlength : plan.round.remaining.length ≤ n := by
          rw [hround, List.length_erase_of_mem hin]
          omega
        obtain ⟨rest, hgreedy, hrounds⟩ := ih (by rw [hround, hdeferred]) hperm' hlength
        refine ⟨entity :: rest, ?_, ?_⟩
        · rw [hround] at hgreedy
          rw [hsplit] at hgreedy ⊢
          apply Greedy.cons _ _ hgreedy
          · intro b hb hbready
            have hb' : b ∈ plan.remaining := by
              rw [hsplit]
              exact List.mem_append_left _ hb
            have hnot := hbefore b hb
            rw [(isReady_iff hnames hknown hdeferred horder
              (hmem b (List.mem_append_right _ hb'))).mpr hbready] at hnot
            exact absurd hnot (by simp)
          · exact (isReady_iff hnames hknown hdeferred horder
              (hmem entity (List.mem_append_right _ hin))).mp hentity
        · rw [hrounds, hround, List.append_assoc, List.singleton_append]

theorem greedy_planTableOrder :
    (planTableOrder entities).deferredFields = [] ∧
      Greedy (Refers entities) [] entities (planTableOrder entities).order := by
  let plan : TableOrderPlan := { remaining := entities, order := [], deferredFields := [] }
  obtain ⟨rest, hgreedy, hplan⟩ := greedy_rounds hnames hknown hacyclic (2 * entities.length)
    (show plan.deferredFields = [] from rfl) (.refl _) (by dsimp only [plan]; omega)
  rw [planTableOrder, hplan]
  exact ⟨rfl, hgreedy⟩

end Acyclic

structure TableOrderPlan.Correct (spec : AppSpec) (plan : TableOrderPlan) : Prop where
  ends : plan.remaining = []
  perm : plan.order.Perm spec.entities
  /-- A reference that is neither deferred nor to its own entity points to an earlier table. -/
  earlier : ∀ before entity after, plan.order = before ++ entity :: after →
    ∀ field ∈ entity.fields, field.type = .reference → ∀ target, field.entity = some target →
      target ≠ entity.name → (entity.name, field) ∉ plan.deferredFields →
        target ∈ before.map (·.name)
  /-- A reference has its key in the table, or in a statement of its own when it is deferred. -/
  inline : ∀ entity ∈ spec.entities, ∀ field ∈ entity.fields, field.type = .reference →
    ((renderColumn field ((entity.name, field) ∈ plan.deferredFields)).references.isSome = true ↔
      (entity.name, field) ∉ plan.deferredFields)
  /-- The keys of all statements: one for each reference, and those of the relations. -/
  keys : ((migration spec).flatMap Statement.keys).Perm
    (spec.entities.flatMap referenceKeys ++
      spec.entities.flatMap fun entity => (entity.relations.getD []).flatMap (joinKeys entity))
  /-- Without a cycle nothing is deferred, and no topological order is less. -/
  acyclic : (∀ entity, ¬Relation.TransGen (Refers spec.entities) entity entity) →
    plan.deferredFields = [] ∧ Topological (Refers spec.entities) [] plan.order ∧
      ∀ other, other.Perm spec.entities → Topological (Refers spec.entities) [] other →
        plan.order.map spec.entities.idxOf ≤ other.map spec.entities.idxOf

theorem planTableOrder_correct (spec : AppSpec) (hnames : (spec.entities.map (·.name)).Nodup)
    (hknown : ∀ entity ∈ spec.entities, ∀ field ∈ entity.fields, field.type = .reference →
      ∃ target ∈ spec.entities, field.entity = some target.name) :
    (planTableOrder spec.entities).Correct spec where
  ends := remaining_planTableOrder spec.entities
  perm := perm_planTableOrder spec.entities
  earlier := by
    intro before entity after hsplit field hfield htype target htarget hne hdeferred
    rcases (ordered_planTableOrder spec.entities).refers before entity after hsplit field hfield
      htype target htarget with h | h | h
    · exact absurd h hne
    · exact h
    · exact absurd h hdeferred
  inline := by
    intro entity _ field _ htype
    by_cases hdeferred : (entity.name, field) ∈ (planTableOrder spec.entities).deferredFields
    · simp [renderColumn, hdeferred]
    · simp [renderColumn, hdeferred, htype]
  keys := keys_migration spec
  acyclic := by
    intro hacyclic
    obtain ⟨hdeferred, hgreedy⟩ := greedy_planTableOrder hnames hknown hacyclic
    refine ⟨hdeferred, hgreedy.topological, ?_⟩
    intro other hperm htopological
    apply hgreedy.least _ hperm htopological
    have hnodup : spec.entities.Nodup := List.Nodup.of_map _ hnames
    rw [List.pairwise_iff_getElem]
    intro i j hi hj hlt
    rwa [hnodup.idxOf_getElem, hnodup.idxOf_getElem]

/-- A purchase refers to its vendor, which comes later in the spec. -/
def purchases : AppSpec where
  specVersion := .v0_1
  app := { name := "Purchases", slug := "purchases", version := "1.0.0" }
  entities :=
    [{ name := "Purchase"
       fields := [{ name := "vendor", type := .reference, entity := some "Vendor" }] },
      { name := "Vendor", fields := [{ name := "name", type := .string }] }]

theorem planTableOrder_correct_purchases :
    (planTableOrder purchases.entities).Correct purchases := by
  apply planTableOrder_correct <;> decide

end OpenRupiv.Compiler
