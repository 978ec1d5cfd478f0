import OpenRupiv.Sandbox.Bwrap
import OpenRupiv.Sandbox.RunId
import OpenRupiv.Sandbox.Slots

/-!
# Jails share no files

The supervisor prepares and removes the workspace of a run, and a jail runs in it.  Whatever the
processes of the jails do, in whatever order, no jail sees a file that another run changes.
-/

namespace OpenRupiv.Sandbox

open Js Lib Files

theorem runId_valid (id : RunId) :
    id.val ≠ [] ∧ id.val ≠ dot ∧ id.val ≠ dotdot ∧ slash ∉ id.val := by
  have hne (s : Text) (hs : isValidRunId s = false) : id.val ≠ s := by
    intro heq
    rw [← heq, id.property] at hs
    exact absurd hs (by simp)
  exact ⟨hne _ isValidRunId_nil, hne _ (by decide), hne _ (by decide),
    slash_notMem_runId id.property⟩

def runName (id : RunId) : FileName := ⟨id.val, runId_valid id⟩

theorem runName_injective : Function.Injective runName := by
  intro id id' h
  exact Subtype.ext (congrArg FileName.val h)

theorem join_run (root : Location) (id : RunId) :
    join [locationText root, id.val] = locationText (root ++ [runName id]) :=
  join_location root (runName id)

def devNull : Location := locationOf (ofString "/dev/null")

structure JailRoots where
  pythonRoot : Location
  toolRoot : Location
  workspaceRoot : Location

namespace JailRoots

variable (roots : JailRoots)

def workspace (id : RunId) : Location := roots.workspaceRoot ++ [runName id]

/-- The command line that `runJail` starts in the workspace of `createWorkspace`. -/
def argv (entrypoints : RunId → Text) (id : RunId) : List Text :=
  buildBwrapArgv
    { workspaceHostPath := join [locationText roots.workspaceRoot, id.val]
      pythonRoot := locationText roots.pythonRoot
      toolRoot := locationText roots.toolRoot
      seccompFd := 3
      entrypointPath := entrypoints id }

/-- Neither location is below the other. -/
def Apart (p q : Location) : Prop := ¬p <+: q ∧ ¬q <+: p

/-- No root that the jails share is in the way of the workspaces. -/
structure Separate : Prop where
  python : Apart roots.pythonRoot roots.workspaceRoot
  tool : Apart roots.toolRoot roots.workspaceRoot
  null : Apart devNull roots.workspaceRoot

variable {roots} {bwrap : Bwrap} {entrypoints : RunId → Text} {id id' : RunId} {h : Location}

theorem argv_eq_absoluteArgv (roots : JailRoots) (entrypoints : RunId → Text) (id : RunId) :
    ∃ workspace python tool,
      roots.argv entrypoints id = absoluteArgv workspace python tool (entrypoints id) ∧
        locationOf (slash :: workspace) = roots.workspace id ∧
        locationOf (slash :: python) = roots.pythonRoot ∧
        locationOf (slash :: tool) = roots.toolRoot := by
  refine ⟨_, _, _, ?_, locationOf_locationText (roots.workspace id),
    locationOf_locationText roots.pythonRoot, locationOf_locationText roots.toolRoot⟩
  rw [argv, join_run]
  rfl

theorem visible_of_shows (hbwrap : bwrap.Documented)
    (hshows : bwrap.Shows (roots.argv entrypoints id) h) :
    roots.pythonRoot <+: h ∨ roots.toolRoot <+: h ∨ roots.workspace id <+: h ∨ devNull <+: h := by
  obtain ⟨workspace, python, tool, hargv, hworkspace, hpython, htool⟩ :=
    argv_eq_absoluteArgv roots entrypoints id
  rw [hargv] at hshows
  obtain ⟨bind, hbind, hprefix⟩ := hbwrap.shows hshows (hostOptions_absoluteArgv _ _ _ _)
  rw [bindsOf_absoluteArgv] at hbind
  simp only [List.mem_cons, List.not_mem_nil, or_false, or_self] at hbind
  rcases hbind with rfl | rfl | rfl | rfl
  · exact .inl (hpython ▸ hprefix)
  · exact .inr (.inl (htool ▸ hprefix))
  · exact .inr (.inr (.inl (hworkspace ▸ hprefix)))
  · exact .inr (.inr (.inr hprefix))

theorem workspace_of_writes (hbwrap : bwrap.Documented)
    (hwrites : bwrap.Writes (roots.argv entrypoints id) h) : roots.workspace id <+: h := by
  obtain ⟨workspace, python, tool, hargv, hworkspace, -, -⟩ :=
    argv_eq_absoluteArgv roots entrypoints id
  rw [hargv] at hwrites
  obtain ⟨bind, hbind, hwritable, hprefix⟩ := hbwrap.writes hwrites (hostOptions_absoluteArgv _ _ _ _)
  rw [bindsOf_absoluteArgv] at hbind
  have hreadOnly : ofString "--ro-bind" ∈ readOnlyBindOptions.map ofString := List.mem_cons_self
  simp only [List.mem_cons, List.not_mem_nil, or_false, or_self] at hbind
  rcases hbind with rfl | rfl | rfl | rfl
  · exact absurd hreadOnly hwritable
  · exact absurd hreadOnly hwritable
  · exact hworkspace ▸ hprefix
  · exact absurd hreadOnly hwritable

theorem Apart.not_prefix {p q : Location} (hapart : Apart p q) (hp : p <+: h) : ¬q <+: h :=
  fun hq => (List.prefix_or_prefix_of_prefix hp hq).elim hapart.1 hapart.2

theorem eq_of_shows (hbwrap : bwrap.Documented) (hroots : roots.Separate)
    (hshows : bwrap.Shows (roots.argv entrypoints id) h) (hbelow : roots.workspace id' <+: h) :
    id' = id := by
  have hroot : roots.workspaceRoot <+: h := (List.prefix_append _ _).trans hbelow
  rcases visible_of_shows hbwrap hshows with hpython | htool | hown | hnull
  · exact absurd hroot (hroots.python.not_prefix hpython)
  · exact absurd hroot (hroots.tool.not_prefix htool)
  · have hlength : (roots.workspace id').length = (roots.workspace id).length := by
      simp [workspace]
    have heq := (List.prefix_of_prefix_length_le hbelow hown hlength.le).eq_of_length hlength
    exact runName_injective (List.singleton_inj.mp (List.append_cancel_left heq))
  · exact absurd hroot (hroots.null.not_prefix hnull)

end JailRoots

section Runs

variable {Content : Type} (bwrap : Bwrap) (roots : JailRoots) (entrypoints : RunId → Text)

/-- The processes of a jail change what they can write on the host, or the supervisor changes the
workspace; what they change is left open. -/
inductive HostStep (id : RunId) (files files' : Location → Option Content) : Prop where
  | jail (h : ∀ p, ¬bwrap.Writes (roots.argv entrypoints id) p → files' p = files p)
  | supervisor (h : ∀ p, ¬roots.workspace id <+: p → files' p = files p)

/-- The steps of the runs in any order. -/
inductive HostRun : (Location → Option Content) → List RunId → (Location → Option Content) → Prop where
  | nil {files} : HostRun files [] files
  | snoc {files ids files' id files''} (hrun : HostRun files ids files')
      (hstep : HostStep bwrap roots entrypoints id files' files'') :
      HostRun files (ids ++ [id]) files''

variable {bwrap roots entrypoints} {files files' : Location → Option Content} {ids : List RunId}

theorem HostStep.unchanged {id : RunId} (hbwrap : bwrap.Documented)
    (hstep : HostStep bwrap roots entrypoints id files files') {p : Location}
    (hp : ¬roots.workspace id <+: p) : files' p = files p := by
  cases hstep with
  | jail h => exact h p fun hwrites => hp (JailRoots.workspace_of_writes hbwrap hwrites)
  | supervisor h => exact h p hp

theorem HostRun.unchanged (hbwrap : bwrap.Documented)
    (hrun : HostRun bwrap roots entrypoints files ids files') {p : Location}
    (hp : ∀ id ∈ ids, ¬roots.workspace id <+: p) : files' p = files p := by
  induction hrun with
  | nil => rfl
  | snoc _ hstep ih =>
    rw [hstep.unchanged hbwrap (hp _ (by simp))]
    exact ih fun id hid => hp id (List.mem_append_left _ hid)

/-- In every interleaving of the jails and the supervisor, what a jail sees of the host stays as it is
while the other runs go on, no file changes but in the workspaces of the runs that go on, and no
jail sees the workspace of another run. -/
theorem jails_share_no_files (hbwrap : bwrap.Documented) (hroots : roots.Separate)
    (hrun : HostRun bwrap roots entrypoints files ids files') :
    (∀ id ∉ ids, ∀ p, bwrap.Shows (roots.argv entrypoints id) p → files' p = files p) ∧
      (∀ p, (∀ id ∈ ids, ¬roots.workspace id <+: p) → files' p = files p) ∧
      ∀ id id' p, id' ≠ id → bwrap.Shows (roots.argv entrypoints id) p →
        ¬roots.workspace id' <+: p := by
  refine ⟨fun id hid p hshows => ?_, fun p hp => hrun.unchanged hbwrap hp, ?_⟩
  · apply hrun.unchanged hbwrap
    intro id' hid' hbelow
    rw [JailRoots.eq_of_shows hbwrap hroots hshows hbelow] at hid'
    exact hid hid'
  · intro id id' p hne hshows hbelow
    exact hne (JailRoots.eq_of_shows hbwrap hroots hshows hbelow)

end Runs

/-! The roots of an unset environment. -/

private def defaultRoots : JailRoots where
  pythonRoot := locationOf (ofString "/usr")
  toolRoot := locationOf (ofString "/opt/sandbox-tools")
  workspaceRoot := locationOf (ofString "/workspaces")

private def firstRun : RunId := ⟨ofString "00000000-0000-4000-8000-000000000000", by decide⟩

private def plainBwrap : Bwrap where
  Shows argv h := ∃ bind ∈ bindsOf argv, locationOf bind.2 <+: h
  Writes argv h := ∃ bind ∈ bindsOf argv, bind.1 ∉ readOnlyBindOptions.map ofString ∧
    locationOf bind.2 <+: h

private def noFiles : Location → Option Nat := fun _ => none

private def oneFile : Location → Option Nat :=
  Function.update noFiles (defaultRoots.workspace firstRun) (some 7)

theorem jails_share_no_files_default :
    (∀ id ∉ [firstRun], ∀ p, plainBwrap.Shows (defaultRoots.argv (fun _ => []) id) p →
        oneFile p = noFiles p) ∧
      (∀ p, (∀ id ∈ [firstRun], ¬defaultRoots.workspace id <+: p) → oneFile p = noFiles p) ∧
      ∀ id id' p, id' ≠ id → plainBwrap.Shows (defaultRoots.argv (fun _ => []) id) p →
        ¬defaultRoots.workspace id' <+: p := by
  have hroots : defaultRoots.Separate := by
    constructor <;> unfold JailRoots.Apart <;> decide
  have hdocumented : plainBwrap.Documented := ⟨fun h _ => h, fun h _ => h⟩
  have hrun : HostRun plainBwrap defaultRoots (fun _ => []) noFiles [firstRun] oneFile := by
    rw [← List.nil_append [firstRun]]
    refine .snoc .nil (.supervisor fun p hp => Function.update_of_ne ?_ _ _)
    rintro rfl
    exact hp (List.prefix_refl _)
  exact jails_share_no_files hdocumented hroots hrun

end OpenRupiv.Sandbox
