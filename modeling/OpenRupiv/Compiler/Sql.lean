import OpenRupiv.Runtime.Naming
import OpenRupiv.Spec.Validate

/-!
# What the compiler refuses

The names of `packages/compiler/src/naming.ts`, the checks of `packages/compiler/src/sql.ts` before
a migration is emitted, and those of `compileApp` in `packages/compiler/src/compile.ts`.
-/

namespace OpenRupiv.Compiler

open Js Spec

/-- The acronym rule, then the word rule. -/
def snakeCase (name : String) : String :=
  String.ofList ((Runtime.splitWords (Runtime.splitAcronyms name.toList)).map Char.toLower)

def tableName (entityName : String) : String := snakeCase entityName

def columnName (field : FieldDef) : String :=
  let base := snakeCase field.name
  if field.type = .reference then base ++ "_id" else base

def joinTableName (entityName relationName : String) : String :=
  snakeCase entityName ++ "_" ++ snakeCase relationName

/-- The codes of `SpecError`, and one more. -/
inductive CompilerErrorCode where
  | spec (code : SpecErrorCode)
  | ERR_UNSUPPORTED_SECTION
  deriving DecidableEq

structure CompilerError where
  code : CompilerErrorCode
  path : String
  message : Text
  deriving DecidableEq

/-- Columns that every entity table carries. -/
def RESERVED_COLUMNS : List String := ["id", "created_at", "updated_at"]

structure TableClaim where
  table : String
  path : String
  what : String
  deriving DecidableEq

def claimOfEntity (i : Nat) (entity : EntityDef) : TableClaim where
  table := tableName entity.name
  path := item "/entities" i ++ "/name"
  what := "entity \"" ++ entity.name ++ "\""

def claimOfRelation (spec : AppSpec) (i : Nat) (entity : EntityDef) (j : Nat)
    (relation : RelationDef) : Option TableClaim :=
  if relation.to = entity.name ∨ relation.to ∉ spec.entities.map (·.name) then none
  else some
    { table := joinTableName entity.name relation.name
      path := item (item "/entities" i ++ "/relations") j ++ "/name"
      what := "relation \"" ++ entity.name ++ "." ++ relation.name ++ "\"" }

/-- The claims of an entity: its own table, then those of its relations up to one. -/
def claimsOf (spec : AppSpec) (i : Nat) (entity : EntityDef) (relations : List RelationDef) :
    List TableClaim :=
  claimOfEntity i entity ::
    relations.zipIdx.filterMap fun x => claimOfRelation spec i entity x.2 x.1

def claimsBefore (spec : AppSpec) (before : List EntityDef) : List TableClaim :=
  before.zipIdx.flatMap fun x => claimsOf spec x.2 x.1 (x.1.relations.getD [])

/-- `claimTable`, with the claims made before. -/
def claimTable (origins : List TableClaim) (claim : TableClaim) : List CompilerError :=
  match origins.find? fun origin => origin.table = claim.table with
  | some existing =>
      [⟨.spec .ERR_DUPLICATE_NAME, claim.path, ofString (claim.what ++ " maps to SQL table \"" ++
        claim.table ++ "\", which collides with the declaration at " ++ existing.path)⟩]
  | none => []

/-- The first of the fields before that has the column. -/
def originOf (path : String) (before : List FieldDef) (column : String) : Option String :=
  (before.zipIdx.find? fun x => columnName x.1 = column).map fun x => item path x.2

def columnErrors (path : String) (j : Nat) (before : List FieldDef) (field : FieldDef) :
    List CompilerError :=
  let column := columnName field
  let maps (what : String) : Text :=
    ofString ("field \"" ++ field.name ++ "\" maps to SQL column \"" ++ column ++ "\", which " ++ what)
  if column ∈ RESERVED_COLUMNS then
    [⟨.spec .ERR_DUPLICATE_NAME, item path j ++ "/name",
      maps "is reserved (id, created_at, updated_at are system columns)"⟩]
  else
    match originOf path before column with
    | some origin =>
        [⟨.spec .ERR_DUPLICATE_NAME, item path j ++ "/name",
          maps ("collides with the field at " ++ origin)⟩]
    | none => []

def enumErrors (path : String) (field : FieldDef) : List CompilerError :=
  if field.type = .enum ∧ field.values.getD [] = [] then
    [⟨.spec .ERR_BAD_ENUM, path,
      ofString ("enum field \"" ++ field.name ++ "\" has no values; cannot emit a CHECK constraint")⟩]
  else []

def referenceErrors (spec : AppSpec) (path : String) (field : FieldDef) : List CompilerError :=
  if field.type = .reference then
    match field.entity with
    | none =>
        [⟨.spec .ERR_BAD_REFERENCE, path, ofString ("reference field \"" ++ field.name ++
          "\" has no target entity; cannot emit a foreign key")⟩]
    | some target =>
        if target ∈ spec.entities.map (·.name) then []
        else
          [⟨.spec .ERR_BAD_REFERENCE, path ++ "/entity", ofString ("reference field \"" ++ field.name ++
            "\" targets unknown entity \"" ++ target ++ "\"")⟩]
  else []

def fieldErrors (spec : AppSpec) (path : String) (j : Nat) (before : List FieldDef)
    (field : FieldDef) : List CompilerError :=
  columnErrors path j before field ++ enumErrors (item path j) field ++
    referenceErrors spec (item path j) field

def relationErrors (spec : AppSpec) (origins : List TableClaim) (i : Nat) (entity : EntityDef)
    (j : Nat) (before : List RelationDef) (relation : RelationDef) : List CompilerError :=
  let path := item (item "/entities" i ++ "/relations") j
  if relation.to = entity.name then
    [⟨.ERR_UNSUPPORTED_SECTION, path, ofString ("self-referential manyToMany relation \"" ++
      relation.name ++ "\" on entity \"" ++ entity.name ++
      "\" is not supported by compiler v0 (join-table column names would collide)")⟩]
  else if relation.to ∉ spec.entities.map (·.name) then
    [⟨.spec .ERR_UNKNOWN_ENTITY, path ++ "/to", ofString ("relation \"" ++ relation.name ++
      "\" targets unknown entity \"" ++ relation.to ++ "\"")⟩]
  else
    (claimOfRelation spec i entity j relation).elim []
      (claimTable (origins ++ claimsOf spec i entity before))

def entityErrors (spec : AppSpec) (i : Nat) (before : List EntityDef) (entity : EntityDef) :
    List CompilerError :=
  let origins := claimsBefore spec before
  claimTable origins (claimOfEntity i entity) ++
    entries entity.fields (fieldErrors spec (item "/entities" i ++ "/fields")) ++
    entries (entity.relations.getD []) (relationErrors spec origins i entity)

def collectSqlErrors (spec : AppSpec) : List CompilerError :=
  entries spec.entities (entityErrors spec)

/-- A section of `UNSUPPORTED_SECTIONS` that is not empty. -/
def unsupportedSection (name : String) (count : Nat) : List CompilerError :=
  if count > 0 then
    [⟨.ERR_UNSUPPORTED_SECTION, "/" ++ name, ofString ("spec section \"" ++ name ++ "\" (" ++
      toString count ++ " " ++ (if count = 1 then "entry" else "entries") ++
      ") is not yet supported: the v0 compiler cannot enforce it, and silently dropping it would " ++
      "be a stubbed control. Remove the section or wait for the phase that implements it.")⟩]
  else []

/-- The errors of `compileApp`: it succeeds when there are none. -/
def compileErrors (spec : AppSpec) : List CompilerError :=
  unsupportedSection "policies" (spec.policies.getD []).length ++
    unsupportedSection "evidence" (spec.evidence.getD []).length ++ collectSqlErrors spec

/-- The spec is accepted by `compileApp`. -/
def compiles (spec : AppSpec) : Bool := compileErrors spec = []

end OpenRupiv.Compiler
