import OpenRupiv.Js.Stringify
import OpenRupiv.Js.Date
import OpenRupiv.Lib.Prog
import OpenRupiv.Spec.Types

/-!
# Typed errors

`packages/runtime/src/errors.ts`, with the errors that the transition and entity handlers raise.
-/

namespace OpenRupiv.Runtime

open Js Spec

/-- A value of an entity column, as the driver returns it; a `Date` by its milliseconds. -/
inductive SqlValue where
  | null
  | str (s : Text)
  | num (n : Num)
  | bool (b : Bool)
  | date (ms : Int)
  deriving DecidableEq

/-- `JSON.stringify` of a column in a template; `none` is a column that the row does not have. -/
def jsonValue : Option SqlValue → Text
  | none => ofString "undefined"
  | some .null => ofString "null"
  | some (.str s) => jsonText s
  | some (.num n) => ofString (String.ofList n.stringify)
  | some (.bool b) => ofString (if b then "true" else "false")
  | some (.date ms) => jsonText (toISOString ms)

def jsonLiteral : Literal → Text
  | .str s => jsonText (ofString s)
  | .num n => ofString (String.ofList n.stringify)
  | .bool b => ofString (if b then "true" else "false")

inductive RuntimeErrorCode where
  | ERR_UNAUTHENTICATED
  | ERR_NOT_FOUND
  | ERR_VALIDATION
  | ERR_STATE_FIELD_READONLY
  | ERR_BAD_STATE
  | ERR_FORBIDDEN_ROLE
  | ERR_GUARD_FAILED
  | ERR_DUPLICATE_APPROVER
  | ERR_AUDIT_APPEND_FAILED
  | ERR_SQL_IDENTIFIER
  | ERR_APP_SPEC_INVALID
  | ERR_INTERNAL
  deriving DecidableEq

structure FieldProblem where
  field : Text
  message : Text
  deriving DecidableEq

inductive ErrorDetails where
  | state (expected : String) (actual : Option SqlValue)
  | roles (requiredRoles : List String) (reason : Text)
  | predicate (predicate : FieldPredicate)
  | problems (problems : List FieldProblem)
  | field (field : Text)
  deriving DecidableEq

structure RuntimeError where
  code : RuntimeErrorCode
  message : Text
  statusCode : Nat := 500
  details : Option ErrorDetails := none
  deriving DecidableEq

/-- What a handler can throw: a `RuntimeError`, or what the driver or a service threw. -/
inductive Thrown where
  | runtime (error : RuntimeError)
  | fault
  deriving DecidableEq

instance : Lib.Fault Thrown := ⟨.fault⟩

end OpenRupiv.Runtime
