import OpenRupiv.Js.Json
import OpenRupiv.Lib.Interleaving
import OpenRupiv.Sandbox.Concurrency

/-!
# The sandbox supervisor

`POST /v1/execute` of `packages/sandbox/src/server.ts` with `packages/sandbox/src/workspace.ts` and
`packages/sandbox/src/run-id.ts`, as a program over the semaphore, the workspace root and the jails.
-/

namespace OpenRupiv.Sandbox

open Js Lib

/-- `[0-9a-f]` under the `i` flag. -/
def isHexDigit (u : UInt16) : Bool :=
  (48 ≤ u && u ≤ 57) || (65 ≤ u && u ≤ 70) || (97 ≤ u && u ≤ 102)

/-- `RUN_ID_PATTERN`: a version 4 UUID. -/
def isValidRunId (value : Text) : Bool :=
  match value.splitOn 45 with
  | [a, b, c, d, e] =>
      ([a, b, c, d, e].map List.length == [8, 4, 4, 4, 12]) &&
        ([a, b, c, d, e].all fun group => group.all isHexDigit) && c.head? == some 52 &&
        (d.head?.any fun u => (ofString "89abAB").contains u)
  | _ => false

/-- The last segment of a path, when it is a run id. -/
def extractRunId (workspaceDir : Text) : Option Text :=
  ((workspaceDir.splitOn 47).filter fun s => s ≠ []).getLast?.filter isValidRunId

inductive Violation where
  | network_egress
  | fs_escape

inductive Limit where
  | wall_clock
  | memory
  | output_size

inductive JailOutcome where
  | ok (output : Json) (durationMs : Int)
  | violation (violation : Violation) (message : Text) (durationMs : Int)
  | limit (limit : Limit) (message : Text) (durationMs : Int)
  | toolError (message : Text) (durationMs : Int)

structure JailLimits where
  wallClockMs : Option Num
  memoryBytes : Option Num
  maxOutputBytes : Option Num

inductive Mkdir where
  | created
  | eexist

/-- What `lstat` says of a workspace path. -/
inductive FileKind where
  | symlink
  | other

/-- What the handler asks of the world.  A jail is started by one operation and awaited by another,
so that the requests can interleave while it runs. -/
inductive Op where
  | resolveEntrypoint (tool : Text)
  | acquire
  /-- `await` on the promise of a waiter. -/
  | slot
  | mkdir (runId : Text)
  | writeToolInput (runId : Text) (input : Json)
  | startJail (runId entrypointPath : Text) (limits : JailLimits)
  | awaitJail (runId : Text)
  | lstat (runId : Text)
  | unlink (runId : Text)
  /-- Whether the real path of a workspace is under the real path of the root. -/
  | realpath (runId : Text)
  | rm (runId : Text)
  | release

@[reducible] def Op.Reply : Op → Type
  | .resolveEntrypoint _ => Text
  | .acquire => Acquisition
  | .mkdir _ => Mkdir
  | .awaitJail _ => JailOutcome
  | .lstat _ => FileKind
  | .realpath _ => Bool
  | _ => Unit

inductive Thrown where
  | atCapacity
  | eexist
  | invalidRunId
  | entrypointResolution
  | failed
  deriving DecidableEq

instance : Fault Thrown := ⟨.failed⟩

abbrev Handler (α : Type) := Prog Op.Reply Thrown α

def perform (k : Op) : Handler k.Reply := Prog.perform k

def createWorkspace (runId : Text) : Handler Unit :=
  if isValidRunId runId then do
    match ← perform (.mkdir runId) with
    | .created => return ()
    | .eexist => .throw .eexist
  else .throw .invalidRunId

/-- The part of `cleanupWorkspace` for a path that is no link. -/
def removeWorkspace (runId : Text) : Handler Unit := do
  match ← (perform (.realpath runId)).result with
  | .ok true => Prog.attempt (.rm runId)
  | .ok false => return ()
  | .error (_ : Thrown) => return ()

/-- It never throws: what fails is logged. -/
def cleanupWorkspace (runId : Text) : Handler Unit :=
  if isValidRunId runId then do
    match ← (perform (.lstat runId)).result with
    | .error (_ : Thrown) => return ()
    | .ok .symlink => Prog.attempt (.unlink runId)
    | .ok .other => removeWorkspace runId
  else return ()

/-- What is sent. -/
inductive ReplyBody where
  | error (code : String)
  | unhealthy (assertions : Json)
  | outcome (outcome : JailOutcome)

structure Answer where
  code : Nat
  body : ReplyBody

/-- What the handler reads of the dependencies. -/
structure ServerDeps where
  token : Text
  canaryOk : Bool
  assertions : Json
  concurrency : Capacity

/-- What it reads of a request: the bearer token, the members of the body that are strings, and the
limits after `Number`, of which `NaN` is none. -/
structure ExecuteRequest where
  bearer : Option Text
  runId : Option Text
  tool : Option Text
  input : Json
  limits : JailLimits

def isPositiveFiniteLimit : Option Num → Bool
  | some (.finite d) => !d.neg
  | _ => false

def JailLimits.accepted (limits : JailLimits) : Bool :=
  isPositiveFiniteLimit limits.wallClockMs && isPositiveFiniteLimit limits.memoryBytes &&
    isPositiveFiniteLimit limits.maxOutputBytes

/-- `BARE_NAME_PATTERN`. -/
def isBareName (s : Text) : Bool :=
  s ≠ [] && s.all fun u =>
    (48 ≤ u && u ≤ 57) || (65 ≤ u && u ≤ 90) || (97 ≤ u && u ≤ 122) || u == 95 || u == 45

/-- A missing or empty tool is refused like one that does not resolve. -/
def resolveEntrypoint (tool : Option Text) : Handler Text :=
  match tool with
  | some tool => if isBareName tool then perform (.resolveEntrypoint tool) else
      .throw .entrypointResolution
  | none => .throw .entrypointResolution

/-- `semaphore.acquire()` and the `await` on it. -/
def acquireSlot : Handler Unit := do
  match ← perform .acquire with
  | .acquired => return ()
  | .queued => perform .slot
  | .atCapacity => .throw .atCapacity

section

variable (req : ExecuteRequest) (runId entrypointPath : Text)

/-- The jail between its start and its end. -/
def runJailFn : Handler JailOutcome := do
  perform (.startJail runId entrypointPath req.limits)
  perform (.awaitJail runId)

/-- The inner `try`, with the workspace created. -/
def inWorkspace : Handler Answer :=
  .tryFinally (do
      match ← (perform (.writeToolInput runId req.input)).result with
      | .error (_ : Thrown) => return { code := 500, body := .error "ERR_SANDBOX_INPUT_WRITE" }
      | .ok () =>
          let outcome ← runJailFn req runId entrypointPath
          return { code := 200, body := .outcome outcome })
    (cleanupWorkspace runId)

/-- The outer `try`, with the slot held. -/
def withSlot : Handler Answer :=
  .tryFinally (do
      match ← (createWorkspace runId).result with
      | .ok () => inWorkspace req runId entrypointPath
      | .error Thrown.eexist => return { code := 409, body := .error "ERR_SANDBOX_RUN_ID_IN_USE" }
      | .error e => .throw e)
    (perform .release)

end

/-- `POST /v1/execute`. -/
def execute (hashToken : Text → String) (deps : ServerDeps) (req : ExecuteRequest) :
    Handler Answer := do
  if req.bearer.all fun bearer => hashToken bearer ≠ hashToken deps.token then
    return { code := 401, body := .error "ERR_SANDBOX_UNAUTHORIZED" }
  else if !deps.canaryOk then return { code := 503, body := .unhealthy deps.assertions }
  else
    match req.runId.bind fun id => extractRunId (ofString "/" ++ id) with
    | none => return { code := 400, body := .error "ERR_SANDBOX_BAD_RUN_ID" }
    | some runId =>
        match ← (resolveEntrypoint req.tool).result with
        | .error (_ : Thrown) => return { code := 400, body := .error "ERR_SANDBOX_BAD_TOOL" }
        | .ok entrypointPath =>
            if !req.limits.accepted then
              return { code := 400, body := .error "ERR_SANDBOX_BAD_LIMITS" }
            else
              match ← acquireSlot.result with
              | .error Thrown.atCapacity =>
                  return { code := 503, body := .error "ERR_SANDBOX_AT_CAPACITY" }
              | .error e => .throw e
              | .ok () => withSlot req runId entrypointPath

/-- The semaphore, the run ids with a directory under the root, and the requests whose jail runs. -/
structure Supervisor (ρ : Type) where
  semaphore : ExecutionSemaphore ρ
  present : Text → Bool
  jails : List ρ

/-- What the file system, the jail and the environment answer. -/
structure Choice where
  fails : Bool
  kind : FileKind
  underRoot : Bool
  path : Text
  outcome : JailOutcome

/-- Every operation on the file system may fail, and so may the jail; `mkdir` is exclusive. -/
def exec {ρ : Type} [DecidableEq ρ] (capacity : Capacity) (choice : Choice) (σ : Supervisor ρ)
    (r : ρ) : (k : Op) → Option (Option k.Reply × Supervisor ρ)
  | .resolveEntrypoint _ => some (if choice.fails then none else some choice.path, σ)
  | .acquire =>
      let (outcome, semaphore) := σ.semaphore.acquire capacity r
      some (some outcome, { σ with semaphore })
  | .slot => if r ∈ σ.semaphore.queue then none else some (some (), σ)
  | .mkdir runId =>
      if choice.fails then some (none, σ)
      else if σ.present runId then some (some .eexist, σ)
      else some (some .created, { σ with present := Function.update σ.present runId true })
  | .writeToolInput _ _ => some (if choice.fails then none else some (), σ)
  | .startJail _ _ _ =>
      if choice.fails then some (none, σ) else some (some (), { σ with jails := r :: σ.jails })
  | .awaitJail _ =>
      some (if choice.fails then none else some choice.outcome,
        { σ with jails := σ.jails.erase r })
  | .lstat runId =>
      some (if choice.fails || !σ.present runId then none else some choice.kind, σ)
  | .realpath _ => some (if choice.fails then none else some choice.underRoot, σ)
  | .unlink runId | .rm runId =>
      if choice.fails then some (none, σ)
      else some (some (), { σ with present := Function.update σ.present runId false })
  | .release => some (some (), { σ with semaphore := σ.semaphore.release r })

/-- The supervisor as a machine for the requests `ρ`. -/
@[reducible] def machine (ρ : Type) [DecidableEq ρ] (capacity : Capacity) : Machine ρ where
  Op := Op
  Reply := Op.Reply
  State := Supervisor ρ
  Choice := Choice
  exec := exec capacity

/-- A supervisor that has just started, over a root in which directories may have been left. -/
def boot {ρ : Type} (present : Text → Bool) : Supervisor ρ where
  semaphore := .new
  present
  jails := []

end OpenRupiv.Sandbox
