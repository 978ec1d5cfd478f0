import OpenRupiv.Sandbox.Files

/-!
# The command line of the jail

`packages/sandbox/src/bwrap-argv.ts`, and which options of the command line bring something of the
host into the jail.
-/

namespace OpenRupiv.Sandbox

open Js Lib Files

structure BwrapArgvOptions where
  workspaceHostPath : Text
  pythonRoot : Text
  toolRoot : Text
  seccompFd : Nat
  entrypointPath : Text

def buildBwrapArgv (opts : BwrapArgvOptions) : List Text :=
  [ofString "--unshare-user",
    ofString "--unshare-pid",
    ofString "--unshare-net",
    ofString "--unshare-ipc",
    ofString "--unshare-uts",
    ofString "--die-with-parent",
    ofString "--new-session",
    ofString "--clearenv",
    ofString "--setenv", ofString "PATH", ofString "/usr/bin:/bin",
    ofString "--setenv", ofString "HOME", ofString "/tmp",
    ofString "--setenv", ofString "PYTHONDONTWRITEBYTECODE", ofString "1",
    ofString "--ro-bind", opts.pythonRoot, opts.pythonRoot,
    ofString "--ro-bind", opts.toolRoot, opts.toolRoot,
    ofString "--bind", opts.workspaceHostPath, ofString "/workspace",
    ofString "--chdir", ofString "/workspace",
    ofString "--symlink", ofString "usr/lib", ofString "/lib",
    ofString "--symlink", ofString "usr/lib64", ofString "/lib64",
    ofString "--symlink", ofString "usr/bin", ofString "/bin",
    ofString "--symlink", ofString "usr/sbin", ofString "/sbin",
    ofString "--proc", ofString "/proc",
    ofString "--ro-bind", ofString "/dev/null", ofString "/proc/kcore",
    ofString "--ro-bind", ofString "/dev/null", ofString "/proc/keys",
    ofString "--ro-bind", ofString "/dev/null", ofString "/proc/timer_list",
    ofString "--ro-bind", ofString "/dev/null", ofString "/proc/sysrq-trigger",
    ofString "--tmpfs", ofString "/proc/scsi",
    ofString "--tmpfs", ofString "/tmp",
    ofString "--seccomp", ofString (toString opts.seccompFd),
    ofString "--",
    opts.pythonRoot ++ ofString "/bin/python3",
    opts.entrypointPath]

/-- The names of an absolute path. -/
def locationOf (p : Text) : Location := FileTree.normalize [] (route p).components

theorem normalizeString_absolute (components : List (Component FileName)) :
    normalizeString ⟨true, components⟩ = (FileTree.normalize [] components).map .name := by
  induction components using List.reverseRecOn with
  | nil => rfl
  | append_singleton cs c ih =>
    unfold normalizeString FileTree.normalize at ih ⊢
    rw [List.foldl_append, List.foldl_append, List.foldl_cons, List.foldl_cons, List.foldl_nil,
      List.foldl_nil, ih]
    cases c with
    | stay => rfl
    | name a => rw [List.map_append, List.map_cons, List.map_nil]
    | up =>
      rw [List.getLast?_map, List.map_dropLast]
      rcases List.eq_nil_or_concat (List.foldl _ [] cs) with h | ⟨l, a, h⟩
      · rw [h]
        rfl
      · rw [h, List.concat_eq_append, List.getLast?_concat]
        rfl

/-- `path.normalize` of an absolute path is the text of its location. -/
theorem normalize_absolute {p : Text} (habsolute : isAbsolute p = true)
    (hlast : p.getLast? ≠ some slash) : Files.normalize p = locationText (locationOf p) := by
  have hne : p ≠ [] := by
    rintro rfl
    exact absurd habsolute (by decide)
  rw [Files.normalize, if_neg hne]
  dsimp only
  rw [if_pos habsolute, if_pos (.inr hlast), locationText, locationOf]
  congr 2
  rw [route, habsolute]
  exact normalizeString_absolute _

theorem join_location (root : Location) (name : FileName) :
    join [locationText root, name.val] = locationText (root ++ [name]) := by
  obtain ⟨hne, -, -, hslash⟩ := name.valid
  have hjoin : join [locationText root, name.val] =
      Files.normalize (locationText root ++ slash :: name.val) := by
    rw [join, List.filter_cons_of_pos (by simp [locationText]),
      List.filter_cons_of_pos (by simpa using hne), List.filter_nil]
    change Files.normalize ([slash].intercalate [locationText root, name.val]) = _
    rw [List.intercalate_cons_cons, List.intercalate_singleton, List.append_assoc,
      List.singleton_append]
  have hlast : (locationText root ++ slash :: name.val).getLast? ≠ some slash := by
    rw [List.getLast?_append_of_ne_nil _ (List.cons_ne_nil _ _), List.getLast?_cons_of_ne_nil hne]
    exact fun h => hslash (List.mem_of_getLast? h)
  have hcomponents : (route (locationText root ++ slash :: name.val)).components =
      (route (locationText root)).components ++ [.name name] := by
    rw [route, List.splitOn_append_cons_self, List.splitOn_eq_singleton hslash, ← component_val name]
    exact List.map_append
  have hroot := normalize_route_locationText root
  rw [FileTree.normalize] at hroot
  rw [hjoin, normalize_absolute rfl hlast, locationOf, hcomponents, FileTree.normalize,
    List.foldl_append, hroot]
  rfl

theorem locationOf_locationText (p : Location) : locationOf (locationText p) = p :=
  normalize_route_locationText p

/-- The options of `bwrap` that bring a path of the host into the jail. -/
def bindOptions : List String :=
  ["--bind", "--bind-try", "--dev-bind", "--dev-bind-try", "--ro-bind", "--ro-bind-try"]

def readOnlyBindOptions : List String := ["--ro-bind", "--ro-bind-try"]

/-- The other ones that bring something of the host into it. -/
def hostOptions : List String :=
  ["--dev", "--file", "--bind-data", "--ro-bind-data", "--bind-fd", "--ro-bind-fd", "--overlay-src",
    "--overlay", "--tmp-overlay", "--ro-overlay", "--args", "--userns", "--userns2", "--pidns"]

/-- The options stand before the command. -/
def optionsOf (argv : List Text) : List Text := argv.takeWhile (· ≠ ofString "--")

/-- The options that may bind something, each with the argument after it. -/
def bindsOf (argv : List Text) : List (Text × Text) :=
  ((optionsOf argv).zip (optionsOf argv).tail).filter fun bind =>
    bind.1 ∈ bindOptions.map ofString

/-- What the processes of a jail can read and write on the host, by its command line. -/
structure Bwrap where
  Shows : List Text → Location → Prop
  Writes : List Text → Location → Prop

/-- The documented behaviour of `bwrap`: a jail has nothing of the host but what its options bring
into it, and what is bound read-only is not written. -/
structure Bwrap.Documented (bwrap : Bwrap) : Prop where
  shows : ∀ {argv h}, bwrap.Shows argv h → (∀ option ∈ hostOptions, ofString option ∉ optionsOf argv) →
    ∃ bind ∈ bindsOf argv, locationOf bind.2 <+: h
  writes : ∀ {argv h}, bwrap.Writes argv h →
    (∀ option ∈ hostOptions, ofString option ∉ optionsOf argv) →
    ∃ bind ∈ bindsOf argv, bind.1 ∉ readOnlyBindOptions.map ofString ∧ locationOf bind.2 <+: h

theorem slash_ne_option {option : String} (h : (ofString option).head? ≠ some slash) (p : Text) :
    slash :: p ≠ ofString option := by
  intro heq
  exact h (heq ▸ rfl)

/-- The command line of a jail with absolute paths. -/
def absoluteArgv (workspace python tool entrypoint : Text) : List Text :=
  buildBwrapArgv
    { workspaceHostPath := slash :: workspace, pythonRoot := slash :: python,
      toolRoot := slash :: tool, seccompFd := 3, entrypointPath := entrypoint }

section Options

variable (workspace python tool entrypoint : Text)

theorem optionsOf_absoluteArgv :
    optionsOf (absoluteArgv workspace python tool entrypoint) =
      (absoluteArgv workspace python tool entrypoint).take 60 := by
  have hslash : ∀ p : Text, slash :: p ≠ ofString "--" := slash_ne_option (by decide)
  have hfd : toString 3 = "3" := rfl
  simp [optionsOf, absoluteArgv, buildBwrapArgv, hslash, hfd]

theorem hostOptions_absoluteArgv :
    ∀ option ∈ hostOptions, ofString option ∉
      optionsOf (absoluteArgv workspace python tool entrypoint) := by
  intro option hoption
  have hslash : ∀ p : Text, ofString option ≠ slash :: p := fun p =>
    (slash_ne_option ((by decide : ∀ o ∈ hostOptions, (ofString o).head? ≠ some slash) option hoption)
      p).symm
  have hfd : toString 3 = "3" := rfl
  rw [optionsOf_absoluteArgv]
  simp only [absoluteArgv, buildBwrapArgv, List.take_succ_cons, List.take_zero, List.mem_cons,
    hslash, ofString_inj, hfd, List.not_mem_nil, or_false, false_or]
  clear hslash
  revert option
  decide

theorem bindsOf_absoluteArgv :
    bindsOf (absoluteArgv workspace python tool entrypoint) =
      [(ofString "--ro-bind", slash :: python), (ofString "--ro-bind", slash :: tool),
        (ofString "--bind", slash :: workspace), (ofString "--ro-bind", ofString "/dev/null"),
        (ofString "--ro-bind", ofString "/dev/null"), (ofString "--ro-bind", ofString "/dev/null"),
        (ofString "--ro-bind", ofString "/dev/null")] := by
  have hslash : ∀ option ∈ bindOptions, ∀ p : Text, slash :: p ≠ ofString option := fun o ho =>
    slash_ne_option ((by decide : ∀ o ∈ bindOptions, (ofString o).head? ≠ some slash) o ho)
  have hfd : toString 3 = "3" := rfl
  simp only [bindOptions, List.forall_mem_cons, List.not_mem_nil, false_implies, implies_true,
    and_true] at hslash
  rw [bindsOf, optionsOf_absoluteArgv]
  simp [absoluteArgv, buildBwrapArgv, bindOptions, hslash, hfd]

end Options

end OpenRupiv.Sandbox
