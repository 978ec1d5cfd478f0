import Mathlib.Data.List.Basic
import Mathlib.Data.List.Induction
import Mathlib.Data.List.Infix
import Mathlib.Tactic.Common

/-!
# A file tree with symbolic links

Locations are lists of names from the root.  A path is walked component by component, through the
links that it meets; what the walk ends at is no link, unless the last one is not to be followed.
-/

namespace OpenRupiv.Lib

variable {α : Type}

inductive Component (α : Type) where
  | stay
  | up
  | name (a : α)
  deriving DecidableEq

/-- A path as it is written. -/
structure Route (α : Type) where
  absolute : Bool
  components : List (Component α)
  deriving DecidableEq

inductive Entry (α : Type) where
  | file
  | directory
  | link (target : Route α)
  deriving DecidableEq

inductive Errno where
  | ENOENT
  | ENOTDIR
  | ELOOP
  | EINVAL
  deriving DecidableEq

/-- What is found at a location has a directory above it. -/
structure FileTree (α : Type) where
  entry : List α → Option (Entry α)
  root : entry [] = some .directory
  parent : ∀ p a, entry (p ++ [a]) ≠ none → entry p = some .directory

namespace FileTree

variable (t : FileTree α)

/-- Something other than a link is there. -/
def Real (p : List α) : Prop := t.entry p = some .file ∨ t.entry p = some .directory

/-- There is no link on the way. -/
def Canonical (p : List α) : Prop :=
  t.Real p ∧ ∀ dir, dir <+: p → dir ≠ p → t.entry dir = some .directory

/-- Where the target of a link in `dir` starts. -/
def startOf (dir : List α) (target : Route α) : List α := if target.absolute then [] else dir

section Walk

variable (last : Bool) (follow : List α → Route α → List (Component α) → Except Errno (List α))

/-- From a directory, along components; `follow` goes on from a link with the components after
it.  A link in the last place is followed only if `last` is set. -/
def walk : List α → List (Component α) → Except Errno (List α)
  | dir, [] => .ok dir
  | dir, .stay :: rest => walk dir rest
  | dir, .up :: rest => walk dir.dropLast rest
  | dir, .name a :: rest =>
      match t.entry (dir ++ [a]) with
      | none => .error .ENOENT
      | some .file => if rest = [] then .ok (dir ++ [a]) else .error .ENOTDIR
      | some .directory => walk (dir ++ [a]) rest
      | some (.link target) =>
          if rest = [] ∧ last = false then .ok (dir ++ [a]) else follow dir target rest

end Walk

/-- The location of a path, by following at most so many links. -/
def resolve (last : Bool) : Nat → List α → List (Component α) → Except Errno (List α)
  | 0 => t.walk last fun _ _ _ => .error .ELOOP
  | n + 1 => t.walk last fun dir target rest =>
      resolve last n (startOf dir target) (target.components ++ rest)

/-- The names that are left when the components are taken by their text alone. -/
def normalize (dir : List α) (components : List (Component α)) : List α :=
  components.foldl (fun dir c =>
    match c with
    | .stay => dir
    | .up => dir.dropLast
    | .name a => dir ++ [a]) dir

/-- The location of a list of names, when the target of a link that leads somewhere is put in its
place by its text. -/
def resolveByText : Nat → List α → Except Errno (List α)
  | 0, names => t.walk true (fun _ _ _ => .error .ELOOP) [] (names.map .name)
  | n + 1, names =>
      t.walk true (fun dir target rest => do
          let _ ← t.resolve true n (startOf dir target) target.components
          resolveByText n (normalize (startOf dir target) (target.components ++ rest)))
        [] (names.map .name)

variable {t}

theorem directory_dropLast {dir : List α} (h : t.entry dir = some .directory) :
    t.entry dir.dropLast = some .directory := by
  rcases List.eq_nil_or_concat dir with rfl | ⟨p, a, rfl⟩
  · exact h
  · rw [List.concat_eq_append] at h ⊢
    rw [List.dropLast_concat]
    apply t.parent p a
    rw [h]
    exact Option.some_ne_none _

theorem canonical_of_real {p : List α} (h : t.Real p) : t.Canonical p := by
  refine ⟨h, ?_⟩
  rintro dir ⟨rest, rfl⟩
  induction rest using List.reverseRecOn with
  | nil => exact fun hne => absurd (List.append_nil dir).symm hne
  | append_singleton rest a ih =>
    intro _
    have hentry : t.entry (dir ++ rest) = some .directory := by
      apply t.parent _ a
      rw [List.append_assoc]
      rcases h with h | h <;> simp [h]
    rcases rest with - | ⟨b, rest⟩
    · rwa [List.append_nil] at hentry
    · exact ih (.inr hentry) (by simp)

/-- A walk ends at something real, at a link that is not followed, or where `follow` ends. -/
theorem real_walk (Good : List α → Prop) {last : Bool}
    {follow : List α → Route α → List (Component α) → Except Errno (List α)}
    (hreal : ∀ p, t.Real p → Good p)
    (hlink : last = false → ∀ p target, t.entry p = some (.link target) → Good p)
    (hfollow : ∀ dir target rest p, t.entry dir = some .directory →
      follow dir target rest = .ok p → Good p)
    {dir : List α} (hdir : t.entry dir = some .directory) {components : List (Component α)}
    {p : List α} (h : t.walk last follow dir components = .ok p) : Good p := by
  induction components generalizing dir with
  | nil =>
    rw [walk, Except.ok.injEq] at h
    rw [← h]
    exact hreal _ (.inr hdir)
  | cons c rest ih =>
    cases c with
    | stay => exact ih hdir h
    | up => exact ih (directory_dropLast hdir) h
    | name a =>
      rw [walk] at h
      cases hentry : t.entry (dir ++ [a]) with
      | none =>
        rw [hentry] at h
        exact absurd h (by simp)
      | some e =>
        rw [hentry] at h
        cases e with
        | file =>
          dsimp only at h
          split at h
          · rw [Except.ok.injEq] at h
            rw [← h]
            exact hreal _ (.inl hentry)
          · exact absurd h (by simp)
        | directory => exact ih hentry h
        | link target =>
          dsimp only at h
          split at h
          · rename_i hlast
            rw [Except.ok.injEq] at h
            rw [← h]
            exact hlink hlast.2 _ target hentry
          · exact hfollow dir target rest p hdir h

theorem real_resolveByText {n : Nat} {names p : List α} (h : t.resolveByText n names = .ok p) :
    t.Real p := by
  induction n generalizing names p with
  | zero =>
    refine real_walk t.Real (fun _ hp => hp) (by simp) ?_ t.root h
    intro dir target rest p _ hp
    exact absurd hp (by simp)
  | succ n ih =>
    refine real_walk t.Real (fun _ hp => hp) (by simp) ?_ t.root h
    intro dir target rest p _ hp
    cases hstat : t.resolve true n (startOf dir target) target.components with
    | error e =>
      rw [hstat] at hp
      exact absurd hp (by simp [bind, Except.bind])
    | ok found =>
      rw [hstat] at hp
      exact ih hp

end FileTree

section Relative

variable [DecidableEq α]

/-- The way from one location to another: up to what they share, and down. -/
def relative : List α → List α → List (Component α)
  | a :: origin, b :: target =>
      if a = b then relative origin target
      else (a :: origin).map (fun _ => .up) ++ (b :: target).map .name
  | origin, target => origin.map (fun _ => .up) ++ target.map .name

theorem relative_cases (origin target : List α) :
    (∃ rest, target = origin ++ rest ∧ relative origin target = rest.map .name) ∨
      ∃ more, relative origin target = .up :: more := by
  induction origin generalizing target with
  | nil => exact .inl ⟨target, rfl, by simp [relative]⟩
  | cons a origin ih =>
    cases target with
    | nil => exact .inr ⟨_, rfl⟩
    | cons b target =>
      by_cases hab : a = b
      · subst hab
        rw [relative, if_pos rfl]
        rcases ih target with ⟨rest, rfl, hrest⟩ | hup
        · exact .inl ⟨rest, rfl, hrest⟩
        · exact .inr hup
      · rw [relative, if_neg hab]
        exact .inr ⟨_, rfl⟩

end Relative

end OpenRupiv.Lib
