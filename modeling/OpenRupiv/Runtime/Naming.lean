import OpenRupiv.Runtime.Errors

/-!
# Names in SQL and in routes

`packages/runtime/src/naming.ts`.  Spec names are ASCII; on them `toLowerCase` is `Char.toLower`.
-/

namespace OpenRupiv.Runtime

open Js Spec

/-- `replace(/([a-z0-9])([A-Z])/g, "$1_$2")`: no two matches overlap. -/
def splitWords : List Char → List Char
  | c :: d :: rest =>
      if (c.isLower || c.isDigit) && d.isUpper then c :: '_' :: splitWords (d :: rest)
      else c :: splitWords (d :: rest)
  | cs => cs

/-- `replace(/([A-Z]+)([A-Z][a-z])/g, "$1_$2")`: a match puts one underscore before the last
capital of a run that a small letter follows. -/
def splitAcronyms : List Char → List Char
  | c :: d :: e :: rest =>
      if c.isUpper && d.isUpper && e.isLower then c :: '_' :: splitAcronyms (d :: e :: rest)
      else c :: splitAcronyms (d :: e :: rest)
  | cs => cs

/-- `VendorApplication` → `vendor_application`, `contactEmail` → `contact_email`. -/
def toSnakeCase (name : String) : String :=
  String.ofList ((splitAcronyms (splitWords name.toList)).map Char.toLower)

def entityTable (entityName : String) : String := toSnakeCase entityName

def entityApiSegment (entityName : String) : String :=
  String.ofList ((toSnakeCase entityName).toList.map fun c => if c = '_' then '-' else c)

/-- Reference fields get an `_id` suffix. -/
def columnFor (field : FieldDef) : String :=
  let base := toSnakeCase field.name
  if field.type = .reference then base ++ "_id" else base

/-- `/^[a-z_][a-z0-9_]*$/`. -/
def isSqlIdentifier (name : String) : Bool :=
  match name.toList with
  | [] => false
  | c :: rest =>
      (c.isLower || c == '_') && rest.all fun d => d.isLower || d.isDigit || d == '_'

def quoteIdent (name : String) : Except RuntimeError String :=
  if isSqlIdentifier name then .ok ("\"" ++ name ++ "\"")
  else .error
    { code := .ERR_SQL_IDENTIFIER
      message := ofString "refusing to use unsafe SQL identifier " ++ jsonText (ofString name) }

/-- `[0-9a-f]` under the `i` flag. -/
def isHexUnit (u : UInt16) : Bool :=
  (48 ≤ u && u ≤ 57) || (65 ≤ u && u ≤ 70) || (97 ≤ u && u ≤ 102)

def uuidGroups : List Nat := [8, 4, 4, 4, 12]

/-- `UUID_PATTERN`: groups of hexadecimal digits with a hyphen between each two. -/
def isUuid (value : Text) : Bool :=
  let groups := value.splitOn 45
  groups.map List.length == uuidGroups && groups.all fun group => group.all isHexUnit

theorem mem_of_isUuid {t : Text} (h : isUuid t = true) {u : UInt16} (hu : u ∈ t) :
    u = 45 ∨ isHexUnit u = true := by
  simp only [isUuid, Bool.and_eq_true, List.all_eq_true] at h
  exact (mem_splitOn hu).imp_right fun ⟨group, hgroup, hin⟩ => h.2 group hgroup u hin

example : toSnakeCase "contactEMail2HTTPServer" = "contact_e_mail2_http_server" := by decide

end OpenRupiv.Runtime
