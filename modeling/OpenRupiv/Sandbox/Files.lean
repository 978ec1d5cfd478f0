import OpenRupiv.Lib.FileTree
import OpenRupiv.Lib.Runs
import OpenRupiv.Sandbox.Server

/-!
# Tools and workspaces in the file tree

`packages/sandbox/src/entrypoint.ts` and `cleanupWorkspace` of `packages/sandbox/src/workspace.ts`,
with the functions of `node:path` and `node:fs` that they call, over a tree with symbolic links.
-/

namespace OpenRupiv.Sandbox.Files

open Js Lib

def slash : UInt16 := 47

def dot : Text := ofString "."

def dotdot : Text := ofString ".."

structure FileName where
  val : Text
  valid : val ≠ [] ∧ val ≠ dot ∧ val ≠ dotdot ∧ slash ∉ val
  deriving DecidableEq

abbrev Location : Type := List FileName

def component (s : Text) : Component FileName :=
  if s = dotdot then .up
  else if h : s ≠ [] ∧ s ≠ dot ∧ s ≠ dotdot ∧ slash ∉ s then .name ⟨s, h⟩
  else .stay

def isAbsolute (p : Text) : Bool := p.head? = some slash

def route (p : Text) : Route FileName :=
  { absolute := isAbsolute p, components := (p.splitOn slash).map component }

def componentText : Component FileName → Text
  | .stay => dot
  | .up => dotdot
  | .name a => a.val

def render (components : List (Component FileName)) : Text :=
  [slash].intercalate (components.map componentText)

def locationText (p : Location) : Text := slash :: render (p.map .name)

/-- `normalizeString` of `node:path`: what goes up beyond a relative path is kept. -/
def normalizeString (r : Route FileName) : List (Component FileName) :=
  r.components.foldl (fun out c =>
    match c, out.getLast? with
    | .stay, _ => out
    | .name a, _ => out ++ [.name a]
    | .up, some (.name _) => out.dropLast
    | .up, _ => if r.absolute then out else out ++ [.up]) []

/-- `path.normalize`. -/
def normalize (p : Text) : Text :=
  if p = [] then dot
  else
    let names := render (normalizeString (route p))
    let trailing := p.getLast? = some slash
    if isAbsolute p then slash :: (if names = [] ∨ ¬trailing then names else names ++ [slash])
    else if trailing then (if names = [] then dot else names) ++ [slash]
    else if names = [] then dot
    else names

/-- `path.join`. -/
def join (parts : List Text) : Text :=
  match parts.filter fun s => s ≠ [] with
  | [] => dot
  | present => normalize ([slash].intercalate present)

/-- `path.relative` between absolute paths. -/
def relative (origin target : Text) : Text :=
  let names (p : Text) : Location := FileTree.normalize [] (route p).components
  render (Lib.relative (names origin) (names target))

/-- The test on a relative path: it neither starts with two dots nor is absolute. -/
def staysBelow (relative : Text) : Bool := !(dotdot.isPrefixOf relative || isAbsolute relative)

/-- What a removal is asked to remove: a link or a file, or a directory with all that is below. -/
inductive Removal where
  | nothing
  | entry (p : Location)
  | subtree (p : Location)
  deriving DecidableEq

def Removal.covers : Removal → Location → Prop
  | .nothing, _ => False
  | .entry p, q => q = p
  | .subtree p, q => p <+: q

/-- A tree, the directory of the process, how many links a path may lead through, and which
removals fail. -/
structure Machine where
  tree : FileTree FileName
  cwd : Location
  directory : tree.entry cwd = some .directory
  maxLinks : Nat
  message : Errno → Text
  rmError : Removal → Option Text

namespace Machine

variable (m : Machine)

def start (p : Text) : Location := FileTree.startOf m.cwd (route p)

/-- The location of a path; `last` tells whether a link in the last place is followed. -/
def locate (last : Bool) (p : Text) : Except Errno Location :=
  if p = [] then .error .ENOENT
  else if (0 : UInt16) ∈ p then .error .EINVAL
  else m.tree.resolve last m.maxLinks (m.start p) (route p).components

def existsSync (p : Text) : Bool :=
  match m.locate true p with
  | .ok _ => true
  | .error _ => false

/-- `realpath` of `node:fs/promises`. -/
def realpath (p : Text) : Except Errno Text := do
  let location ← m.locate true p
  return locationText location

/-- `realpathSync` resolves a path, and the target of a link, by its text first. -/
def realpathSync (p : Text) : Except Errno Text := do
  if (0 : UInt16) ∈ p then throw .EINVAL
  let names := FileTree.normalize (m.start p) (route p).components
  let location ← m.tree.resolveByText m.maxLinks names
  return locationText location

def entrypointError (entrypoint reason : Text) : Text :=
  ofString "cannot resolve entrypoint \"" ++ entrypoint ++ ofString "\": " ++ reason

def resolveEntrypoint (entrypoint toolRoot : Text) : Except Text Text :=
  if (0 : UInt16) ∈ entrypoint then
    .error (entrypointError entrypoint (ofString "contains a null byte"))
  else if isBareName entrypoint = false then
    .error (entrypointError entrypoint (ofString
      "must be a bare name (letters, digits, '_', '-' only) -- no path separators"))
  else
    let candidate := join [toolRoot, entrypoint, ofString "main.py"]
    if m.existsSync candidate = false then
      .error (entrypointError entrypoint (candidate ++ ofString " does not exist"))
    else
      match (do return (← m.realpathSync toolRoot, ← m.realpathSync candidate)) with
      | .error e =>
          .error (entrypointError entrypoint
            (ofString "failed to canonicalize resolved path: " ++ m.message e))
      | .ok (realToolRoot, realCandidate) =>
          if staysBelow (relative realToolRoot realCandidate) then .ok realCandidate
          else .error (entrypointError entrypoint (ofString "resolved path escapes toolRoot"))

/-- The fields and the message of `logger.warn`. -/
structure Warning where
  runId : Text
  reason : Text
  msg : String

def failure (runId reason : Text) (msg : String) : Option Warning := some ⟨runId, reason, msg⟩

def rm (runId : Text) (removal : Removal) (msg : String) : Removal × Option Warning :=
  (removal, (m.rmError removal).map fun reason => ⟨runId, reason, msg⟩)

/-- What is removed, and the warning that is logged. -/
def cleanupWorkspace (runId root : Text) : Removal × Option Warning :=
  if isValidRunId runId = false then
    (.nothing, failure runId (ofString "invalid_run_id") "refusing to clean up an invalid runId")
  else
    let dir := join [root, runId]
    match m.locate false dir with
    | .error _ => (.nothing, none)
    | .ok found =>
        match m.tree.entry found with
        | some (.link _) =>
            m.rm runId (.entry found) "failed to remove a symlink found at the workspace path"
        | _ =>
            match (do return (← m.locate true dir, ← m.realpath dir, ← m.realpath root)) with
            | .error e =>
                (.nothing, failure runId (m.message e) "failed to clean up workspace directory")
            | .ok (location, real, realRoot) =>
                if staysBelow (relative realRoot real) then
                  m.rm runId (.subtree location) "failed to clean up workspace directory"
                else
                  (.nothing, failure runId (ofString "resolved_outside_root")
                    "workspace realpath resolved outside the workspace root — refusing to delete")

end Machine

theorem component_val (a : FileName) : component a.val = .name a := by
  obtain ⟨s, hne, hdot, hdotdot, hslash⟩ := a
  rw [component, if_neg hdotdot, dif_pos ⟨hne, hdot, hdotdot, hslash⟩]

private theorem normalize_names (dir p : Location) :
    FileTree.normalize dir (p.map .name) = dir ++ p := by
  induction p generalizing dir with
  | nil => simp [FileTree.normalize]
  | cons a p ih =>
    rw [List.map_cons, FileTree.normalize, List.foldl_cons, ← FileTree.normalize, ih]
    simp

theorem normalize_route_locationText (p : Location) :
    FileTree.normalize [] (route (locationText p)).components = p := by
  have hsplit : (locationText p).splitOn slash = [] :: (render (p.map .name)).splitOn slash := by
    rw [locationText, List.splitOn_cons_eq_if_modifyHead, if_pos (by simp)]
  rw [route, hsplit, List.map_cons]
  have hempty : component [] = .stay := by decide
  rw [hempty, FileTree.normalize, List.foldl_cons, ← FileTree.normalize]
  cases p with
  | nil =>
    rw [List.map_nil, render, List.map_nil, List.intercalate_nil, List.splitOn_nil]
    rfl
  | cons a p =>
    have hnames : (render ((a :: p).map .name)).splitOn slash = (a :: p).map FileName.val := by
      have hmap : ((a :: p).map .name).map componentText = (a :: p).map FileName.val := by
        rw [List.map_map]
        rfl
      rw [render, hmap]
      apply List.splitOn_intercalate
      · intro s hs
        obtain ⟨b, -, rfl⟩ := List.mem_map.mp hs
        exact b.valid.2.2.2
      · exact List.cons_ne_nil _ _
    have hcomponents : ((a :: p).map FileName.val).map component = (a :: p).map .name := by
      rw [List.map_map]
      exact List.map_congr_left fun b _ => component_val b
    rw [hnames, hcomponents]
    exact normalize_names [] (a :: p)

/-- A location from which the way does not go up is below the origin, whatever the names are. -/
theorem isPrefix_of_staysBelow {origin target : Location}
    (h : staysBelow (relative (locationText origin) (locationText target)) = true) :
    origin <+: target := by
  unfold relative at h
  dsimp only at h
  rw [normalize_route_locationText, normalize_route_locationText] at h
  rcases relative_cases origin target with ⟨rest, rfl, -⟩ | ⟨more, hup⟩
  · exact List.prefix_append origin rest
  · -- the text of a way that goes up starts with two dots
    have hdots : dotdot <+: render (.up :: more) := by
      cases more with
      | nil => exact ⟨[], by simp [render, componentText]⟩
      | cons c more => exact ⟨_, by rw [render, List.map_cons, List.map_cons,
          List.intercalate_cons_cons, componentText, List.append_assoc]⟩
    rw [hup, staysBelow, List.isPrefixOf_iff_prefix.mpr hdots] at h
    exact absurd h (by simp)

namespace Machine

variable {m : Machine}

theorem realpath_eq_ok {p text : Text} (h : m.realpath p = .ok text) :
    ∃ location, m.locate true p = .ok location ∧ text = locationText location := by
  unfold realpath at h
  cases hlocate : m.locate true p with
  | error e =>
    rw [hlocate] at h
    exact absurd h (by simp [bind, Except.bind])
  | ok location =>
    rw [hlocate] at h
    exact ⟨location, rfl, (Except.ok.inj h).symm⟩

theorem realpathSync_eq_ok {p text : Text} (h : m.realpathSync p = .ok text) :
    ∃ location, m.tree.Real location ∧ text = locationText location := by
  unfold realpathSync at h
  split at h
  · exact absurd h (by simp [throw, throwThe, MonadExceptOf.throw, bind, Except.bind])
  · simp only at h
    cases hresolve : m.tree.resolveByText m.maxLinks
        (FileTree.normalize (m.start p) (route p).components) with
    | error e =>
      rw [hresolve] at h
      exact absurd h (by simp [bind, Except.bind])
    | ok location =>
      rw [hresolve] at h
      exact ⟨location, FileTree.real_resolveByText hresolve, (Except.ok.inj h).symm⟩

theorem resolveEntrypoint_eq_ok {entrypoint toolRoot text : Text}
    (h : m.resolveEntrypoint entrypoint toolRoot = .ok text) :
    ∃ root location, m.realpathSync toolRoot = .ok (locationText root) ∧
      text = locationText location ∧ m.tree.Canonical location ∧ root <+: location := by
  unfold resolveEntrypoint at h
  split at h
  · exact absurd h (by simp)
  split at h
  · exact absurd h (by simp)
  dsimp only at h
  split at h
  · exact absurd h (by simp)
  cases hroot : m.realpathSync toolRoot with
  | error e =>
    rw [hroot] at h
    exact absurd h (by simp [bind, Except.bind])
  | ok rootText =>
    rw [hroot] at h
    cases hcandidate : m.realpathSync (join [toolRoot, entrypoint, ofString "main.py"]) with
    | error e =>
      rw [hcandidate] at h
      exact absurd h (by simp [bind, Except.bind])
    | ok candidate =>
      rw [hcandidate] at h
      obtain ⟨root, -, rfl⟩ := realpathSync_eq_ok hroot
      obtain ⟨location, hreal, rfl⟩ := realpathSync_eq_ok hcandidate
      change (if staysBelow (relative (locationText root) (locationText location)) then
        Except.ok (locationText location) else _) = _ at h
      split at h
      · rename_i hbelow
        exact ⟨root, location, rfl, (Except.ok.inj h).symm, FileTree.canonical_of_real hreal,
          isPrefix_of_staysBelow hbelow⟩
      · exact absurd h (by simp)

/-- What is removed is the link at the workspace path, or lies in the canonical root. -/
theorem covers_cleanupWorkspace {runId root : Text} {q : Location}
    (h : (m.cleanupWorkspace runId root).1.covers q) :
    (m.locate false (join [root, runId]) = .ok q ∧ ∃ target, m.tree.entry q = some (.link target)) ∨
      ∃ realRoot, m.realpath root = .ok (locationText realRoot) ∧ realRoot <+: q := by
  unfold cleanupWorkspace at h
  split at h
  · exact absurd h id
  dsimp only at h
  cases hfound : m.locate false (join [root, runId]) with
  | error e =>
    rw [hfound] at h
    exact absurd h id
  | ok found =>
    rw [hfound] at h
    dsimp only at h
    split at h
    · rename_i target hentry
      have hq : q = found := h
      exact .inl ⟨by rw [hq], target, by rw [hq, hentry]⟩
    · cases hlocate : m.locate true (join [root, runId]) with
      | error e =>
        rw [hlocate] at h
        exact absurd h id
      | ok location =>
        have hreal : m.realpath (join [root, runId]) = .ok (locationText location) := by
          rw [realpath, hlocate]
          rfl
        rw [hlocate, hreal] at h
        cases hroot : m.realpath root with
        | error e =>
          rw [hroot] at h
          exact absurd h id
        | ok rootText =>
          rw [hroot] at h
          obtain ⟨realRoot, -, rfl⟩ := realpath_eq_ok hroot
          change Removal.covers (if staysBelow (relative (locationText realRoot)
            (locationText location)) then _ else _ : Removal × Option Warning).1 q at h
          split at h
          · rename_i hbelow
            have hq : location <+: q := h
            exact .inr ⟨realRoot, rfl, (isPrefix_of_staysBelow hbelow).trans hq⟩
          · exact absurd h id

end Machine

section Server

variable {m : Machine} {root : Text}

/-- What `lstat` says of the workspace. -/
def Machine.lstat (m : Machine) (root runId : Text) : Option FileKind :=
  match m.locate false (join [root, runId]) with
  | .error _ => none
  | .ok found =>
      match m.tree.entry found with
      | some (.link _) => some .symlink
      | _ => some .other

def Machine.underRoot (m : Machine) (root runId : Text) : Option Bool :=
  match (do return (← m.locate true (join [root, runId]), ← m.realpath (join [root, runId]),
    ← m.realpath root)) with
  | .error _ => none
  | .ok (_, real, realRoot) => some (staysBelow (relative realRoot real))

/-- The operation is answered as the tree has it. -/
def Machine.Answers (m : Machine) (root : Text) : (k : Op) → Option k.Reply → Prop
  | .resolveEntrypoint tool, r => r = (m.resolveEntrypoint tool root).toOption
  | .lstat runId, r => r = m.lstat root runId
  | .realpath runId, r => r = m.underRoot root runId
  | _, _ => True

theorem resolveEntrypoint_server {tool : Text} {trace : List (Prog.Answered Op.Reply)}
    {o : Except Thrown Text} (h : (Sandbox.resolveEntrypoint (some tool)).Run trace o)
    (hanswers : ∀ a ∈ trace, m.Answers root a.1 a.2) :
    o.toOption = (m.resolveEntrypoint tool root).toOption := by
  unfold Sandbox.resolveEntrypoint perform at h
  dsimp only at h
  split at h
  · obtain ⟨text, rfl, rfl⟩ | ⟨rfl, rfl⟩ := Prog.run_perform_iff.mp h
    · exact hanswers _ List.mem_cons_self
    · exact hanswers _ List.mem_cons_self
  · rename_i hbare
    obtain ⟨rfl, rfl⟩ := Prog.run_throw_iff.mp h
    rw [Machine.resolveEntrypoint, if_pos (Bool.eq_false_iff.mpr hbare)]
    split <;> rfl

theorem Machine.cleanupWorkspace_entry_iff {runId : Text} :
    (∃ found, (m.cleanupWorkspace runId root).1 = .entry found) ↔
      isValidRunId runId = true ∧ m.lstat root runId = some .symlink := by
  unfold cleanupWorkspace lstat
  dsimp only
  split
  · rename_i hinvalid
    simp [hinvalid]
  rename_i hvalid
  rw [Bool.not_eq_false] at hvalid
  cases m.locate false (join [root, runId]) with
  | error e => simp
  | ok found =>
    dsimp only
    split
    · simp [rm, hvalid]
    · split
      · simp
      · split <;> simp [rm]

theorem Machine.cleanupWorkspace_subtree_iff {runId : Text} :
    (∃ location, (m.cleanupWorkspace runId root).1 = .subtree location) ↔
      isValidRunId runId = true ∧ m.lstat root runId = some .other ∧
        m.underRoot root runId = some true := by
  unfold cleanupWorkspace lstat underRoot
  dsimp only
  split
  · rename_i hinvalid
    simp [hinvalid]
  rename_i hvalid
  rw [Bool.not_eq_false] at hvalid
  cases m.locate false (join [root, runId]) with
  | error e => simp
  | ok found =>
    dsimp only
    split
    · simp [rm]
    · split
      · simp
      · split <;> simp_all [rm]

/-- The handler removes of the workspace what `cleanupWorkspace` removes in the tree: a link, or all
of a directory. -/
theorem cleanupWorkspace_server {runId : Text} {trace : List (Prog.Answered Op.Reply)}
    {o : Except Thrown Unit} (h : (Sandbox.cleanupWorkspace runId).Run trace o)
    (hanswers : ∀ a ∈ trace, m.Answers root a.1 a.2) :
    ((∃ a ∈ trace, a.1 = .unlink runId) ↔
        ∃ found, (m.cleanupWorkspace runId root).1 = .entry found) ∧
      ((∃ a ∈ trace, a.1 = .rm runId) ↔
        ∃ location, (m.cleanupWorkspace runId root).1 = .subtree location) := by
  rw [Machine.cleanupWorkspace_entry_iff, Machine.cleanupWorkspace_subtree_iff]
  unfold Sandbox.cleanupWorkspace at h
  split at h
  case isFalse hinvalid =>
    obtain ⟨rfl, -⟩ := Prog.run_ret_iff.mp h
    simp [hinvalid]
  rename_i hvalid
  obtain ⟨r, first, rest, hfirst, hrest, rfl⟩ := Prog.run_result_bind_iff.mp h
  obtain ⟨kind, rfl, rfl⟩ | ⟨rfl, rfl⟩ := Prog.run_perform_iff.mp hfirst
  case inr =>
    obtain ⟨rfl, -⟩ := Prog.run_ret_iff.mp hrest
    have hlstat : none = m.lstat root runId := hanswers _ List.mem_cons_self
    simp [← hlstat]
  have hlstat : some kind = m.lstat root runId := hanswers _ List.mem_cons_self
  rw [← hlstat]
  cases kind with
  | symlink =>
    obtain ⟨_, _, rfl, hret⟩ := Prog.run_call_iff.mp hrest
    obtain ⟨rfl, -⟩ := Prog.run_ret_iff.mp hret
    simp [hvalid]
  | other =>
    obtain ⟨r', asked, removed, hasked, hremoved, rfl⟩ := Prog.run_result_bind_iff.mp hrest
    obtain ⟨below, rfl, rfl⟩ | ⟨rfl, rfl⟩ := Prog.run_perform_iff.mp hasked
    · have hunder : some below = m.underRoot root runId :=
        hanswers ⟨.realpath runId, some below⟩ (by simp)
      rw [← hunder]
      cases below with
      | false =>
        obtain ⟨rfl, -⟩ := Prog.run_ret_iff.mp hremoved
        simp
      | true =>
        obtain ⟨_, _, rfl, hret⟩ := Prog.run_call_iff.mp hremoved
        obtain ⟨rfl, -⟩ := Prog.run_ret_iff.mp hret
        simp [hvalid]
    · have hunder : none = m.underRoot root runId := hanswers ⟨.realpath runId, none⟩ (by simp)
      obtain ⟨rfl, -⟩ := Prog.run_ret_iff.mp hremoved
      simp [← hunder]

end Server

/-- In every tree, with its links: `resolveEntrypoint` returns only a canonical path that lies in
the canonical tool root, `cleanupWorkspace` removes only what lies in the canonical workspace root,
or the link at the workspace path, and the test on the relative path accepts only the root and what
is below it. -/
theorem no_path_escapes (m : Machine) (root : Text) :
    (∀ entrypoint text, m.resolveEntrypoint entrypoint root = .ok text →
      ∃ realRoot location, m.realpathSync root = .ok (locationText realRoot) ∧
        text = locationText location ∧ m.tree.Canonical location ∧ realRoot <+: location) ∧
    (∀ runId q, (m.cleanupWorkspace runId root).1.covers q →
      (m.locate false (join [root, runId]) = .ok q ∧
          ∃ target, m.tree.entry q = some (.link target)) ∨
        ∃ realRoot, m.realpath root = .ok (locationText realRoot) ∧ realRoot <+: q) ∧
    ∀ origin target : Location,
      staysBelow (relative (locationText origin) (locationText target)) = true →
        origin <+: target :=
  ⟨fun _ _ h => Machine.resolveEntrypoint_eq_ok h, fun _ _ h => Machine.covers_cleanupWorkspace h,
    fun _ _ h => isPrefix_of_staysBelow h⟩

/-! A tool `e` in `/t`, and a workspace that is a link to the root. -/

private def toolsName : FileName := ⟨ofString "t", by decide⟩

private def toolName : FileName := ⟨ofString "e", by decide⟩

private def mainName : FileName := ⟨ofString "main.py", by decide⟩

private def runName : FileName := ⟨ofString "00000000-0000-4000-8000-000000000000", by decide⟩

private def smallTree : FileTree FileName where
  entry
    | [] => some .directory
    | [a] => if a = toolsName then some .directory else none
    | [a, b] =>
        if a = toolsName then
          if b = toolName then some .directory
          else if b = runName then some (.link ⟨true, []⟩) else none
        else none
    | [a, b, c] => if a = toolsName ∧ b = toolName ∧ c = mainName then some .file else none
    | _ => none
  root := rfl
  parent := by
    intro p a h
    match p, h with
    | [], _ => rfl
    | [b], h =>
      by_contra hnot
      have hb : b ≠ toolsName := by
        rintro rfl
        exact hnot rfl
      simp [hb] at h
    | [b, c], h =>
      by_contra hnot
      have hbc : ¬(b = toolsName ∧ c = toolName) := by
        rintro ⟨rfl, rfl⟩
        exact hnot rfl
      simp at h
      exact hbc ⟨h.1, h.2.1⟩
    | _ :: _ :: _ :: _, h => simp at h

private def smallMachine : Machine where
  tree := smallTree
  cwd := []
  directory := rfl
  maxLinks := 40
  message := fun _ => []
  rmError := fun _ => none

theorem no_path_escapes_small :
    (∃ realRoot location,
      smallMachine.realpathSync (ofString "/t") = .ok (locationText realRoot) ∧
        locationText [toolsName, toolName, mainName] = locationText location ∧
        smallMachine.tree.Canonical location ∧ realRoot <+: location) ∧
    ((smallMachine.locate false (join [ofString "/t", runName.val]) =
          .ok [toolsName, runName] ∧
        ∃ target, smallMachine.tree.entry [toolsName, runName] = some (.link target)) ∨
        ∃ realRoot, smallMachine.realpath (ofString "/t") = .ok (locationText realRoot) ∧
          realRoot <+: [toolsName, runName]) ∧
    [toolsName] <+: [toolsName, runName] := by
  have hresolve : smallMachine.resolveEntrypoint (ofString "e") (ofString "/t") =
      .ok (locationText [toolsName, toolName, mainName]) := by decide +kernel
  have hcleanup : (smallMachine.cleanupWorkspace runName.val (ofString "/t")).1 =
      .entry [toolsName, runName] := by decide +kernel
  have hcovers : (smallMachine.cleanupWorkspace runName.val (ofString "/t")).1.covers
      [toolsName, runName] := by
    rw [hcleanup]
    rfl
  have hbelow : staysBelow (relative (locationText [toolsName])
      (locationText [toolsName, runName])) = true := by decide +kernel
  exact ⟨(no_path_escapes smallMachine (ofString "/t")).1 _ _ hresolve,
    (no_path_escapes smallMachine (ofString "/t")).2.1 _ _ hcovers,
    (no_path_escapes smallMachine (ofString "/t")).2.2 _ _ hbelow⟩

end OpenRupiv.Sandbox.Files
