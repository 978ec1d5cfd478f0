import OpenRupiv.Compiler.Names

/-!
# The first migration

`packages/compiler/src/sql.ts`: the statements that `renderMigration` emits, and their text.  A
table comes after the tables that it refers to; where references form a cycle, foreign keys are
added when all tables are there.
-/

namespace OpenRupiv.Compiler

open Js Spec

inductive SqlType where
  | text
  | doublePrecision
  | boolean
  | date
  | timestamptz
  | uuid
  deriving DecidableEq

def SqlType.print : SqlType → String
  | .text => "text"
  | .doublePrecision => "double precision"
  | .boolean => "boolean"
  | .date => "date"
  | .timestamptz => "timestamptz"
  | .uuid => "uuid"

/-- `SCALAR_SQL_TYPES`, with the types of enums and references. -/
def sqlType : FieldType → SqlType
  | .string | .text | .enum => .text
  | .number => .doublePrecision
  | .boolean => .boolean
  | .date => .date
  | .datetime => .timestamptz
  | .reference => .uuid

inductive ColumnDefault where
  | genRandomUuid
  | now
  | literal (value : Literal)
  deriving DecidableEq

structure ColumnDef where
  name : String
  type : SqlType
  primaryKey : Bool := false
  notNull : Bool := false
  unique : Bool := false
  default : Option ColumnDefault := none
  /-- `CHECK (column IN (…))`. -/
  check : Option (List String) := none
  /-- `REFERENCES table(id)`. -/
  references : Option String := none
  deriving DecidableEq

structure TableDef where
  name : String
  columns : List ColumnDef
  /-- A `PRIMARY KEY (…)` of the table. -/
  primaryKey : List String := []
  deriving DecidableEq

inductive Statement where
  /-- `CREATE EXTENSION IF NOT EXISTS`. -/
  | createExtension (name : String)
  | createTable (table : TableDef)
  | addForeignKey (table name column target : String)
  deriving DecidableEq

/-- The fields whose foreign keys are added later, under the names of their entities. -/
abbrev Deferred := List (String × FieldDef)

structure TableOrderPlan where
  remaining : List EntityDef
  order : List EntityDef
  deferredFields : Deferred

namespace TableOrderPlan

variable (plan : TableOrderPlan)

def emitted (name : String) : Bool := plan.order.any fun e => e.name = name

/-- A reference to another entity that has no table yet. -/
def isUnmet (entity : EntityDef) (field : FieldDef) : Bool :=
  field.type = .reference &&
    field.entity.any fun target => target ≠ entity.name && !plan.emitted target

def isReady (entity : EntityDef) : Bool :=
  entity.fields.all fun field =>
    !plan.isUnmet entity field || (entity.name, field) ∈ plan.deferredFields

/-- A round of the loop: the first entity that is ready is emitted, or the first one that remains
has its unmet foreign keys deferred. -/
def round : TableOrderPlan :=
  match plan.remaining.find? plan.isReady with
  | some entity =>
      { plan with remaining := plan.remaining.erase entity, order := plan.order ++ [entity] }
  | none =>
      match plan.remaining with
      | [] => plan
      | blocked :: _ =>
          { plan with
            deferredFields := plan.deferredFields ++
              (blocked.fields.filter (plan.isUnmet blocked)).map fun field =>
                (blocked.name, field) }

end TableOrderPlan

/-- At most two rounds for an entity. -/
def planTableOrder (entities : List EntityDef) : TableOrderPlan :=
  TableOrderPlan.round^[2 * entities.length]
    { remaining := entities, order := [], deferredFields := [] }

def renderColumn (field : FieldDef) (deferReference : Bool) : ColumnDef where
  name := columnName field
  type := sqlType field.type
  notNull := field.required = some true
  unique := field.unique = some true
  default := field.default.map .literal
  check := if field.type = .enum then some (field.values.getD []) else none
  references :=
    if field.type = .reference ∧ deferReference = false then some (tableName (field.entity.getD ""))
    else none

def idColumn : ColumnDef where
  name := "id"
  type := .uuid
  primaryKey := true
  default := some .genRandomUuid

def timeColumn (name : String) : ColumnDef where
  name
  type := .timestamptz
  notNull := true
  default := some .now

def renderEntityTable (entity : EntityDef) (deferredFields : Deferred) : TableDef where
  name := tableName entity.name
  columns :=
    idColumn ::
      entity.fields.map (fun field =>
        renderColumn field ((entity.name, field) ∈ deferredFields)) ++
    [timeColumn "created_at", timeColumn "updated_at"]

def keyColumn (table : String) : ColumnDef where
  name := table ++ "_id"
  type := .uuid
  notNull := true
  references := some table

def renderJoinTable (entity : EntityDef) (relation : RelationDef) : TableDef :=
  let left := tableName entity.name
  let right := tableName relation.to
  { name := joinTableName entity.name relation.name
    columns := [keyColumn left, keyColumn right]
    primaryKey := [left ++ "_id", right ++ "_id"] }

def foreignKeys (entity : EntityDef) (deferredFields : Deferred) : List Statement :=
  (entity.fields.filter fun field => (entity.name, field) ∈ deferredFields).map fun field =>
    let table := tableName entity.name
    let column := columnName field
    .addForeignKey table (table ++ "_" ++ column ++ "_fkey") column
      (tableName (field.entity.getD ""))

def joinTables (entity : EntityDef) : List TableDef :=
  (entity.relations.getD []).map (renderJoinTable entity)

/-- The statements of `0001_init.sql`. -/
def migration (spec : AppSpec) : List Statement :=
  let plan := planTableOrder spec.entities
  .createExtension "pgcrypto" ::
    plan.order.map (fun entity => .createTable (renderEntityTable entity plan.deferredFields)) ++
    plan.order.flatMap (fun entity => foreignKeys entity plan.deferredFields) ++
    spec.entities.flatMap fun entity => (joinTables entity).map .createTable

/-- A quote is doubled. -/
def sqlStringLiteral (value : String) : String :=
  let quote := Char.ofNat 39
  String.ofList ([quote] ++ value.toList.flatMap (fun c => if c = quote then [c, c] else [c]) ++ [quote])

/-- `String(value)`. -/
def numberText : Num → String
  | .infinite neg => if neg then "-Infinity" else "Infinity"
  | n => String.ofList n.stringify

def sqlLiteral : Literal → String
  | .str s => sqlStringLiteral s
  | .num n => numberText n
  | .bool b => if b then "true" else "false"

def ColumnDefault.print : ColumnDefault → String
  | .genRandomUuid => "gen_random_uuid()"
  | .now => "now()"
  | .literal value => sqlLiteral value

def ColumnDef.print (column : ColumnDef) : String :=
  String.intercalate " " ([column.name, column.type.print] ++
    (if column.primaryKey then ["PRIMARY KEY"] else []) ++
    (if column.notNull then ["NOT NULL"] else []) ++
    (if column.unique then ["UNIQUE"] else []) ++
    (column.default.map fun default => "DEFAULT " ++ default.print).toList ++
    (column.check.map fun values => "CHECK (" ++ column.name ++ " IN (" ++
      String.intercalate ", " (values.map sqlStringLiteral) ++ "))").toList ++
    (column.references.map fun target => "REFERENCES " ++ target ++ "(id)").toList)

def TableDef.print (table : TableDef) : String :=
  let key :=
    if table.primaryKey = [] then []
    else ["PRIMARY KEY (" ++ String.intercalate ", " table.primaryKey ++ ")"]
  "CREATE TABLE " ++ table.name ++ " (\n  " ++
    String.intercalate ",\n  " (table.columns.map ColumnDef.print ++ key) ++ "\n);"

def Statement.print : Statement → String
  | .createExtension name => "CREATE EXTENSION IF NOT EXISTS " ++ name ++ ";"
  | .createTable table => table.print
  | .addForeignKey table name column target =>
      "ALTER TABLE " ++ table ++ "\n  ADD CONSTRAINT " ++ name ++ " FOREIGN KEY (" ++ column ++
        ") REFERENCES " ++ target ++ "(id);"

/-- The lines below `CREATE EXTENSION`. -/
def headerComment (spec : AppSpec) : String :=
  "-- Migration 0001_init for app \"" ++ spec.app.slug ++ "\" v" ++ spec.app.version ++ " (spec v" ++
    spec.specVersion.text ++ ").\n" ++
  "-- Generated by @openrupiv/compiler as a deterministic projection of app/spec.json.\n" ++
  "-- Forward-only: never edit a migration after it has been applied; add a new one.\n"

def renderMigration (spec : AppSpec) : Except (List CompilerError) String :=
  let errors := collectSqlErrors spec
  if errors ≠ [] then .error errors
  else
    match migration spec with
    | [] => .ok (headerComment spec)
    | extension :: statements =>
        .ok (extension.print ++ "\n\n" ++ headerComment spec ++ "\n" ++
          String.intercalate "\n\n" (statements.map Statement.print) ++ "\n")

end OpenRupiv.Compiler
