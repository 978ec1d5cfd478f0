import OpenRupiv.Compiler.Acceptance
import OpenRupiv.Compiler.Rewrites
import OpenRupiv.Compiler.Tables
import OpenRupiv.Spec.Reread

/-!
# The emitted tests

`packages/compiler/src/app-test.ts`: the tests of `test/spec.test.mjs` in a compiled app.  They parse
the emitted `spec.json` and compare it with itself and with the text of the migration.
-/

namespace OpenRupiv.Compiler

open Js Lib Spec

/-- What `compileApp` emits and its tests read. -/
structure CompiledApp where
  /-- `app/spec.json`. -/
  specJson : Text
  /-- `app/migrations/0001_init.sql`. -/
  migration : Text

/-- `compileApp` of a spec and the value it was validated from. -/
def compileApp (document : Json) (spec : AppSpec) : Except (List CompilerError) CompiledApp :=
  let errors := unsupportedSection "policies" (spec.policies.getD []).length ++
    unsupportedSection "evidence" (spec.evidence.getD []).length
  match renderMigration spec with
  | .error migrationErrors => .error (errors ++ migrationErrors)
  | .ok sql =>
      if errors ≠ [] then .error errors
      else .ok ⟨stringifyIndented document ++ ofString "\n", ofString sql⟩

/-- A text that was written to a file and is read from it, both as UTF-8. -/
def readFile (written : Text) : Text := fromUtf8 (toUtf8 written)

/-- `assert.ok`. -/
def assert (b : Bool) : Option Unit := if b then some () else none

/-- `snakeCase(v)`: only texts have the method `replace`. -/
def snakeText : Option Json → Option Text
  | some (.scalar (.str t)) =>
      some (ofString (specTestSnakeCase (String.ofList (scalarValues t))))
  | _ => none

/-- `requireSpec()`, of what `JSON.parse` returned. -/
def requireSpec : Option Json → Option Json
  | some (.obj ms) => some (.obj ms)
  | _ => none

def versionTest (spec : Json) : Option Unit := do
  let version ← property spec "specVersion"
  assert (["0.1", "0.2"].any fun v => strictEquals (some (.scalar (.str (ofString v)))) version)

/-- `(v ?? []).find((x) => x.name === name)`. -/
def findNamed (v name : Option Json) : Option (Option Json) :=
  find v fun x => do return strictEquals (← property (some x) "name") name

def statesTest (spec : Json) : Option Unit := do
  (← iterate (← property spec "workflows")).forM fun workflow => do
    let entityName ← property (some workflow) "entity"
    let entity ← findNamed (← property spec "entities") entityName
    assert (truthy entity)
    let fieldName ← property (some workflow) "stateField"
    let stateField ← findNamed (← property entity "fields") fieldName
    assert (truthy stateField)
    assert (strictEquals (← property stateField "type") (some (.scalar (.str (ofString "enum")))))
    let states ← iterate (← property stateField "values")
    let has (v : Option Json) : Bool := states.any fun state => strictEquals (some state) v
    assert (has (← property (some workflow) "initial"))
    (← iterate (← property (some workflow) "transitions")).forM fun transition => do
      assert (has (← property (some transition) "from"))
      assert (has (← property (some transition) "to"))

/-- `Number.isInteger(v) && v >= 2`. -/
def isCount : Option Json → Bool
  | some (.scalar (.num n)) => (natOfNum n).any fun count => 2 ≤ count
  | _ => false

def approvalsTest (spec : Json) : Option Unit := do
  (← iterate (← property spec "workflows")).forM fun workflow => do
    (← iterate (← property (some workflow) "transitions")).forM fun transition => do
      let approval ← property (some transition) "approval"
      if approval = none then return
      assert (isCount (← property approval "count"))

def requiredJoinTable (table : Text) (relation : Json) : Option Text := do
  let name ← snakeText (← property (some relation) "name")
  return table ++ ofString "_" ++ name

/-- The table of an entity, then those of its relations. -/
def requiredTablesOf (entity : Json) : Option (List Text) := do
  let table ← snakeText (← property (some entity) "name")
  let joins ← (← iterate (← property (some entity) "relations")).mapM (requiredJoinTable table)
  return table :: joins

def requiredTables (spec : Json) : Option (List Text) := do
  let tables ← (← iterate (← property spec "entities")).mapM requiredTablesOf
  return tables.flatten

def tablesTest (migration : Text) (spec : Json) : Option Unit := do
  let tables ← requiredTables spec
  assert (0 < tables.length)
  tables.forM fun table =>
    assert (ofString "CREATE TABLE " ++ table ++ ofString " (" <:+: migration)

def extensionTest (migration : Text) : Option Unit :=
  assert ((ofString "CREATE EXTENSION IF NOT EXISTS pgcrypto;").isPrefixOf migration)

/-- The tests of `spec.test.mjs` on the texts of the two files, each with a result when it passes. -/
def specTests (toNumber : Text → Num) (rawSpec migration : Text) : List (String × Option Unit) :=
  let spec := requireSpec (parse toNumber rawSpec)
  [("spec.json parses as a JSON object", spec.map fun _ => ()),
    ("specVersion is a supported version", spec.bind versionTest),
    ("every workflow state exists on its entity's state field", spec.bind statesTest),
    ("every approval transition requires at least 2 distinct approvers", spec.bind approvalsTest),
    ("the migration creates every table the spec requires", spec.bind (tablesTest migration)),
    ("the migration enables pgcrypto before using gen_random_uuid()", extensionTest migration)]

section

variable {spec : AppSpec} {w : Json}

theorem strictEquals_names (s t : String) :
    strictEquals (some (nameValue s)) (some (nameValue t)) = decide (s = t) := by
  simp [strictEquals, nameValue]

theorem versionTest_passes (h : SpecShown w spec) : versionTest w = some () := by
  have hany : (["0.1", "0.2"].any fun v =>
      strictEquals (some (nameValue v)) (some (nameValue spec.specVersion.text))) = true := by
    cases spec.specVersion <;> simp [strictEquals_names, SpecVersion.text]
  rw [versionTest, h.specVersion]
  simp only [Option.bind_eq_bind, Option.bind_some]
  exact if_pos hany

theorem findNamed_shown {α : Type} {decode : Json → Option α} {name : α → String} {v : Option Json}
    {items : List Json} {xs : List α} (hlist : ListAt v items)
    (hitems : List.Forall₂ (Shows decode) items xs)
    (hname : ∀ w x, Shows decode w x →
      property (some w) "name" = some (some (nameValue (name x))))
    (hnd : (xs.map name).Nodup) {x : α} (hx : x ∈ xs) :
    ∃ w, findNamed v (some (nameValue (name x))) = some (some w) ∧ Shows decode w x := by
  rw [findNamed, hlist.find]
  apply findM?_of_forall₂ hitems (q := fun y => name y = name x)
  · intro w y hw
    simp [hname w y hw, strictEquals_names]
  · exact (find_named_eq_some_iff hnd).mpr ⟨hx, rfl⟩

theorem states_any {items : List Json} {states : List String}
    (h : List.Forall₂ (Shows decodeName) items states) {state : String} (hmem : state ∈ states) :
    (items.any fun w => strictEquals (some w) (some (nameValue state))) = true := by
  induction h with
  | nil => exact absurd hmem List.not_mem_nil
  | cons hw hrest ih =>
    rw [List.any_cons, shows_name hw, strictEquals_names, Bool.or_eq_true]
    rcases List.mem_cons.mp hmem with rfl | hmem
    · exact .inl (by simp)
    · exact .inr (ih hmem)

theorem statesTest_passes (hvalid : spec.valid = true) (h : SpecShown w spec) :
    statesTest w = some () := by
  have haccepted := (AppSpec.valid_iff.mp hvalid).2
  obtain ⟨v, items, hproperty, hlist, hitems⟩ := h.workflows
  obtain ⟨ev, entityItems, hentities, hentityList, hentityItems⟩ := h.entities
  rw [statesTest, hproperty]
  simp only [Option.bind_eq_bind, Option.bind_some, hlist.iterate, hentities]
  apply forM_of_forall₂ hitems
  intro ww workflow hmem hww
  have hworkflow := workflowShown hww
  obtain ⟨entity, he, hentity, field, hf, hfield, hchecks⟩ := haccepted.workflows workflow hmem
  obtain ⟨ew, hfindEntity, hew⟩ := findNamed_shown hentityList hentityItems
    (fun w x hw => (entityShown hw).name) haccepted.entityNames he
  have hshownEntity := entityShown hew
  obtain ⟨fv, fieldItems, hfields, hfieldList, hfieldItems⟩ := hshownEntity.fields
  have hmembers := (haccepted.entities entity he).members
  obtain ⟨fw, hfindField, hfw⟩ := findNamed_shown hfieldList hfieldItems
    (fun w x hw => (fieldShown hw).name) (List.nodup_append.mp hmembers).1 hf
  have hshownField := fieldShown hfw
  obtain ⟨sv, stateItems, hvalues, hstateList, hstateItems⟩ := hshownField.values
  obtain ⟨tv, transitionItems, htransitions, htransitionList, htransitionItems⟩ :=
    hworkflow.transitions
  rw [hentity] at hfindEntity
  rw [hfield] at hfindField
  have htype : strictEquals (some (nameValue field.type.print))
      (some (.scalar (.str (ofString "enum")))) = true := by
    rw [hchecks.type]
    decide
  have hinitial := states_any hstateItems hchecks.initial
  simp only [Option.bind_some, hworkflow.entity, hworkflow.stateField,
    hworkflow.initial, hfindEntity, hshownEntity.object, hfields, hfindField, hshownField.object,
    hshownField.type, htype, hvalues, hstateList.iterate, hinitial, htransitions,
    htransitionList.iterate, assert, if_true]
  apply forM_of_forall₂ htransitionItems
  intro tw transition htransition htw
  have hshown := transitionShown htw
  have hbound := hchecks.transitions transition htransition
  have hsource := states_any hstateItems hbound.from
  have htarget := states_any hstateItems hbound.to
  simp only [Option.bind_some, hshown.source, hshown.target, hsource, htarget, if_true]

theorem approvalsTest_passes (hvalid : spec.valid = true) (h : SpecShown w spec) :
    approvalsTest w = some () := by
  obtain ⟨v, items, hproperty, hlist, hitems⟩ := h.workflows
  rw [approvalsTest, hproperty]
  simp only [Option.bind_eq_bind, Option.bind_some, hlist.iterate]
  apply forM_of_forall₂ hitems
  intro ww workflow hmem hww
  obtain ⟨tv, transitionItems, htransitions, htransitionList, htransitionItems⟩ :=
    (workflowShown hww).transitions
  simp only [Option.bind_some, htransitions, htransitionList.iterate]
  apply forM_of_forall₂ htransitionItems
  intro tw transition htransition htw
  obtain ⟨aw, happroval, hrel⟩ := (transitionShown htw).approval
  simp only [Option.bind_some, happroval]
  cases hrule : transition.approval with
  | none =>
    rw [hrule] at hrel
    cases hrel
    rfl
  | some rule =>
    rw [hrule] at hrel
    cases hrel with
    | some hrel =>
      obtain ⟨n, hcount, hn⟩ := approvalShown hrel
      have hconforms := AppSpec.workflow_conforms hvalid hmem
      simp only [WorkflowDef.conforms, Bool.and_eq_true, List.all_eq_true] at hconforms
      have hrule' := hconforms.2 transition htransition
      simp only [TransitionDef.conforms, Bool.and_eq_true, hrule, Option.all_some,
        ApprovalRule.conforms, decide_eq_true_eq] at hrule'
      have htwo : 2 ≤ rule.count := hrule'.2.1
      have hisCount : isCount (some (.scalar (.num n))) = true := by
        simp [isCount, hn, htwo]
      simp [hcount, hisCount, assert]

theorem scalarValues_ofString (s : String) : String.ofList (scalarValues (ofString s)) = s :=
  ofString_injective (ofString_scalarValues (wellFormed_ofString s))

theorem snakeText_name (s : String) :
    snakeText (some (nameValue s)) = some (ofString (snakeCase s)) := by
  have htext : snakeText (some (nameValue s)) =
      some (ofString (specTestSnakeCase (String.ofList (scalarValues (ofString s))))) := rfl
  rw [htext, scalarValues_ofString, specTestSnakeCase, separated_eq_snakeCase]

theorem requiredJoinTable_eq (entityName : String) {relation : RelationDef}
    (h : Shows decodeRelation w relation) :
    requiredJoinTable (ofString (snakeCase entityName)) w =
      some (ofString (joinTableName entityName relation.name)) := by
  rw [requiredJoinTable, relationShown h]
  simp only [Option.bind_eq_bind, Option.bind_some, snakeText_name]
  rw [joinTableName, ofString_append, ofString_append]
  rfl

theorem requiredTablesOf_eq {entity : EntityDef} (h : Shows decodeEntity w entity) :
    requiredTablesOf w = some ((tablesOf entity).map ofString) := by
  have hentity := entityShown h
  obtain ⟨v, items, hrelations, hlist, hitems⟩ := hentity.relations
  have hjoins := mapM_of_forall₂ hitems fun _ _ hw => requiredJoinTable_eq entity.name hw
  rw [requiredTablesOf, hentity.name]
  simp only [Option.bind_eq_bind, Option.bind_some, snakeText_name, hrelations, hlist.iterate,
    hjoins]
  simp only [tablesOf, tableName, List.map_cons, List.map_map, Function.comp_def, Option.pure_def]

theorem requiredTables_eq (h : SpecShown w spec) :
    requiredTables w = some ((spec.entities.flatMap tablesOf).map ofString) := by
  obtain ⟨v, items, hproperty, hlist, hitems⟩ := h.entities
  have hentities := mapM_of_forall₂ hitems fun _ _ hw => requiredTablesOf_eq hw
  rw [requiredTables, hproperty]
  simp only [Option.bind_eq_bind, Option.bind_some, hlist.iterate, hentities]
  rw [List.map_flatMap, List.flatMap]
  rfl

theorem createTable_mem {name : String} (h : name ∈ spec.entities.flatMap tablesOf) :
    ∃ table, Statement.createTable table ∈ migration spec ∧ table.name = name := by
  have htables : ∃ table ∈ tables spec, table.name = name := by
    obtain ⟨entity, he, hname⟩ := List.mem_flatMap.mp h
    rcases List.mem_cons.mp hname with rfl | hname
    · exact ⟨_, entityTableDef_mem he, rfl⟩
    · obtain ⟨relation, hr, rfl⟩ := List.mem_map.mp hname
      exact ⟨_, mem_tables.mpr (.inr ⟨entity, he, List.mem_map_of_mem hr⟩), rfl⟩
  obtain ⟨table, htable, hname⟩ := htables
  obtain ⟨statement, hstatement, heq⟩ := List.mem_filterMap.mp htable
  cases statement with
  | createTable other =>
    obtain rfl := Option.some.inj heq
    exact ⟨other, hstatement, hname⟩
  | _ => cases heq

theorem renderMigration_eq_ok {sql : String} (h : renderMigration spec = .ok sql) :
    sql = "CREATE EXTENSION IF NOT EXISTS pgcrypto;" ++ "\n\n" ++ headerComment spec ++ "\n" ++
      String.intercalate "\n\n" ((migration spec).tail.map Statement.print) ++ "\n" := by
  rw [renderMigration] at h
  split at h
  · exact absurd h (by simp)
  · exact (Except.ok.inj h).symm

/-- `t.includes(s)`. -/
def Includes (t s : String) : Prop := ∃ before after, t = before ++ s ++ after

theorem Includes.trans {s t u : String} (h : Includes t s) (h' : Includes u t) : Includes u s := by
  obtain ⟨before, after, rfl⟩ := h
  obtain ⟨before', after', rfl⟩ := h'
  exact ⟨before' ++ before, after ++ after', by simp only [String.append_assoc]⟩

theorem Includes.append {s t : String} (h : Includes t s) (before after : String) :
    Includes (before ++ t ++ after) s :=
  h.trans ⟨before, after, rfl⟩

theorem Includes.within {s t : String} (h : Includes t s) : ofString s <:+: ofString t := by
  obtain ⟨before, after, rfl⟩ := h
  exact ⟨ofString before, ofString after, by rw [ofString_append, ofString_append]⟩

theorem includes_intercalate {sep part : String} {parts : List String} (h : part ∈ parts) :
    Includes (String.intercalate sep parts) part := by
  induction parts with
  | nil => exact absurd h List.not_mem_nil
  | cons first parts ih =>
    cases parts with
    | nil => exact ⟨"", "", by simp [List.mem_singleton.mp h]⟩
    | cons next parts =>
      rw [String.intercalate_cons_cons]
      rcases List.mem_cons.mp h with rfl | h
      · exact ⟨"", sep ++ String.intercalate sep (next :: parts), by simp [String.append_assoc]⟩
      · have htail := (ih h).append (first ++ sep) ""
        simpa using htail

theorem includes_createTable (table : TableDef) :
    Includes (Statement.createTable table).print ("CREATE TABLE " ++ table.name ++ " (") := by
  have hopening : " (\n  " = " (" ++ "\n  " := by decide
  have hprint : (Statement.createTable table).print = table.print := rfl
  refine ⟨"", "\n  " ++ String.intercalate ",\n  " (table.columns.map ColumnDef.print ++
    if table.primaryKey = [] then []
    else ["PRIMARY KEY (" ++ String.intercalate ", " table.primaryKey ++ ")"]) ++ "\n);", ?_⟩
  rw [hprint, TableDef.print, hopening]
  simp only [String.append_assoc, String.empty_append]

/-- The migration has a statement for every table that an entity declares. -/
theorem migration_includes {sql : String} (h : renderMigration spec = .ok sql) {name : String}
    (hname : name ∈ spec.entities.flatMap tablesOf) :
    Includes sql ("CREATE TABLE " ++ name ++ " (") := by
  obtain ⟨table, hmem, rfl⟩ := createTable_mem hname
  have htail : Statement.createTable table ∈ (migration spec).tail := by
    rcases List.mem_cons.mp hmem with heq | htail
    · cases heq
    · exact htail
  have hbody : Includes
      (String.intercalate "\n\n" ((migration spec).tail.map Statement.print))
      (Statement.createTable table).print :=
    includes_intercalate (List.mem_map_of_mem htail)
  rw [renderMigration_eq_ok h]
  exact ((includes_createTable table).trans hbody).append _ _

theorem tablesTest_passes (h : SpecShown w spec) (hentities : spec.entities ≠ []) {sql : String}
    (hsql : renderMigration spec = .ok sql) : tablesTest (ofString sql) w = some () := by
  have hpositive : 0 < ((spec.entities.flatMap tablesOf).map ofString).length := by
    obtain ⟨entity, entities, heq⟩ := List.exists_cons_of_ne_nil hentities
    simp [heq, tablesOf]
  have hcreated : ((spec.entities.flatMap tablesOf).map ofString).forM (fun table =>
      assert (ofString "CREATE TABLE " ++ table ++ ofString " (" <:+: ofString sql)) = some () := by
    apply forM_of_forall₂ (R := Eq) (List.forall₂_same.mpr fun _ _ => rfl)
    intro table _ hmem heq
    obtain ⟨name, hname, rfl⟩ := List.mem_map.mp (heq ▸ hmem)
    have hincludes := (migration_includes hsql hname).within
    rw [ofString_append, ofString_append] at hincludes
    rw [assert, if_pos (by simpa using hincludes)]
  rw [tablesTest, requiredTables_eq h]
  simp only [Option.bind_eq_bind, Option.bind_some, hcreated]
  rw [assert, if_pos (by simpa using hpositive), Option.bind_some]

theorem extensionTest_passes {sql : String} (hsql : renderMigration spec = .ok sql) :
    extensionTest (ofString sql) = some () := by
  rw [renderMigration_eq_ok hsql, extensionTest, assert, if_pos]
  simp only [ofString_append, List.append_assoc]
  exact List.isPrefixOf_iff_prefix.mpr (List.prefix_append _ _)

end

theorem readFile_ofString (s : String) : readFile (ofString s) = ofString s :=
  fromUtf8_toUtf8_of_wellFormed (wellFormed_ofString s)

theorem compileApp_eq_ok {document : Json} {spec : AppSpec} {app : CompiledApp}
    (h : compileApp document spec = .ok app) : ∃ sql, renderMigration spec = .ok sql ∧
      app = ⟨stringifyIndented document ++ ofString "\n", ofString sql⟩ := by
  unfold compileApp at h
  cases hsql : renderMigration spec with
  | error errors => simp [hsql] at h
  | ok sql =>
    simp only [hsql] at h
    split at h
    · exact absurd h (by simp)
    · exact ⟨sql, rfl, (Except.ok.inj h).symm⟩

theorem validateSpec_eq_ok {schemaErrors : Json → List SpecError} {document : Json}
    {spec : AppSpec} (h : validateSpec schemaErrors document = .ok spec) :
    decodeSpec document = some spec ∧ spec.valid = true := by
  cases document with
  | obj ms =>
    rw [validateSpec] at h
    split at h
    · exact absurd h (by simp)
    · split at h
      · exact absurd h (by simp)
      · rename_i found hstructural
        split at h
        · rename_i hsemantic
          obtain rfl := Except.ok.inj h
          obtain ⟨hdecode, hconforms⟩ := Option.filter_eq_some_iff.mp hstructural
          exact ⟨hdecode, by rw [AppSpec.valid, hconforms, hsemantic]; rfl⟩
        · exact absurd h (by simp)
  | _ => exact absurd h (by simp [validateSpec])

/-- Every one of the six tests of a compiled app passes on the files that were emitted with it. -/
theorem emitted_tests_pass {toNumber : Text → Num} {schemaErrors : Json → List SpecError}
    {document : Json} (hdistinct : document.distinctKeys = true)
    (hread : ∀ n ∈ document.numbers, n.isFinite = true → toNumber n.print = n.unsigned)
    {spec : AppSpec} (hvalid : validateSpec schemaErrors document = .ok spec) {app : CompiledApp}
    (hcompiled : compileApp document spec = .ok app) :
    (specTests toNumber (readFile app.specJson) (readFile app.migration)).map (·.1) =
        ["spec.json parses as a JSON object", "specVersion is a supported version",
          "every workflow state exists on its entity's state field",
          "every approval transition requires at least 2 distinct approvers",
          "the migration creates every table the spec requires",
          "the migration enables pgcrypto before using gen_random_uuid()"] ∧
      ∀ test ∈ specTests toNumber (readFile app.specJson) (readFile app.migration),
        test.2 = some () := by
  refine ⟨rfl, ?_⟩
  obtain ⟨hdecode, hspec⟩ := validateSpec_eq_ok hvalid
  obtain ⟨sql, hsql, rfl⟩ := compileApp_eq_ok hcompiled
  -- what the tests read is what was printed
  have hblank : Blank (ofString "\n") := by
    have hall : (ofString "\n").all isSpace = true := by decide
    exact List.all_eq_true.mp hall
  have hwritten : IsString (stringifyIndented document ++ ofString "\n") :=
    (isString_indented (isString_ofString "  ") document (isString_ofString "")).append (isString_ofString "\n")
  obtain ⟨written, hwritten⟩ := hwritten
  have hfile : readFile (stringifyIndented document ++ ofString "\n") =
      stringifyIndented document ++ ofString "\n" := by
    rw [hwritten, readFile_ofString]
  have hparse : parse toNumber (stringifyIndented document ++ ofString "\n") =
      some (reprint document) := by
    rw [parse_stringifyIndented hdistinct hblank, Json.rebuild_reread hread]
    rfl
  have hshown : SpecShown (reprint document) spec := specShown ⟨document, hdistinct, hdecode, rfl⟩
  have hrequired : requireSpec (some (reprint document)) = some (reprint document) := by
    obtain ⟨ms, hms⟩ := hshown.object
    rw [hms]
    rfl
  have hentities : spec.entities ≠ [] := by
    have hconforms := AppSpec.conforms_of_valid hspec
    simp only [AppSpec.conforms, Bool.and_eq_true, decide_eq_true_eq] at hconforms
    exact hconforms.1.1.1.1.1.1.2
  intro test htest
  simp only [specTests, hfile, readFile_ofString, hparse, hrequired, Option.map_some,
    Option.bind_some, List.mem_cons, List.not_mem_nil, or_false] at htest
  rcases htest with rfl | rfl | rfl | rfl | rfl | rfl
  · rfl
  · exact versionTest_passes hshown
  · exact statesTest_passes hspec hshown
  · exact approvalsTest_passes hspec hshown
  · exact tablesTest_passes hshown hentities hsql
  · exact extensionTest_passes hsql

def nameMember (key value : String) : Text × Json := (ofString key, nameValue value)

def listMember (key : String) (items : List Json) : Text × Json := (ofString key, .arr items)

/-- Contracts, related to vendors, that two approvers sign. -/
def contractsDocument : Json :=
  .obj
    [nameMember "specVersion" "0.1",
      (ofString "app", .obj [nameMember "name" "Contracts", nameMember "slug" "contracts",
        nameMember "version" "1.0.0"]),
      listMember "entities"
        [.obj [nameMember "name" "Vendor",
          listMember "fields" [.obj [nameMember "name" "title", nameMember "type" "string"]]],
        .obj [nameMember "name" "FrameContract",
          listMember "fields" [.obj [nameMember "name" "state", nameMember "type" "enum",
            listMember "values" [nameValue "draft", nameValue "signed"]]],
          listMember "relations" [.obj [nameMember "name" "subVendors",
            nameMember "kind" "manyToMany", nameMember "to" "Vendor"]]]],
      listMember "workflows"
        [.obj [nameMember "name" "signing", nameMember "entity" "FrameContract",
          nameMember "stateField" "state", nameMember "initial" "draft",
          listMember "transitions" [.obj [nameMember "name" "sign", nameMember "from" "draft",
            nameMember "to" "signed",
            (ofString "approval", .obj [(ofString "count", .scalar (.num (.ofInt 2)))])]]]]]

theorem emitted_tests_pass_contracts : ∃ spec app,
    validateSpec (fun _ => []) contractsDocument = .ok spec ∧
      compileApp contractsDocument spec = .ok app ∧
      (specTests exactNumber (readFile app.specJson) (readFile app.migration)).map (·.1) =
        ["spec.json parses as a JSON object", "specVersion is a supported version",
          "every workflow state exists on its entity's state field",
          "every approval transition requires at least 2 distinct approvers",
          "the migration creates every table the spec requires",
          "the migration enables pgcrypto before using gen_random_uuid()"] ∧
      ∀ test ∈ specTests exactNumber (readFile app.specJson) (readFile app.migration),
        test.2 = some () := by
  have haccepted : ∃ spec, validateSpec (fun _ => []) contractsDocument = .ok spec ∧
      ∃ app, compileApp contractsDocument spec = .ok app := ⟨_, rfl, _, rfl⟩
  obtain ⟨spec, hvalid, app, hcompiled⟩ := haccepted
  have hdistinct : contractsDocument.distinctKeys = true := by decide +kernel
  exact ⟨spec, app, hvalid, hcompiled, emitted_tests_pass hdistinct
    (fun _ _ => exactNumber_print) hvalid hcompiled⟩

end OpenRupiv.Compiler
