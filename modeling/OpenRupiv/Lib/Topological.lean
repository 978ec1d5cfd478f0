import Mathlib.Data.List.Lex
import Mathlib.Order.WellFoundedSet
import Mathlib.Logic.Relation

/-!
# Topological orders

`needs a b` says that `b` has to come before `a`.  Taking the first item that is ready, again and
again, gives a topological order, and among all of them the one that is lexicographically least by
the positions that the items had (`Greedy.least`).  Without a cycle there is always one to take
(`exists_ready`).
-/

namespace OpenRupiv.Lib

variable {α : Type} (needs : α → α → Prop)

/-- What an item needs is done. -/
def Ready (done : List α) (a : α) : Prop := ∀ b, needs a b → b ∈ done

/-- Each item is ready when its turn comes. -/
def Topological : List α → List α → Prop
  | _, [] => True
  | done, a :: rest => Ready needs done a ∧ Topological (done ++ [a]) rest

/-- The items are taken in this order, always the first one that is ready. -/
inductive Greedy [DecidableEq α] : List α → List α → List α → Prop where
  | nil {done} : Greedy done [] []
  | cons {done before after rest a} : (∀ b ∈ before, ¬Ready needs done b) → Ready needs done a →
      Greedy (done ++ [a]) ((before ++ a :: after).erase a) rest →
      Greedy done (before ++ a :: after) (a :: rest)

variable {needs} {done remaining order : List α}

namespace Greedy

variable [DecidableEq α]

theorem perm (h : Greedy needs done remaining order) : order.Perm remaining := by
  induction h with
  | nil => exact .refl _
  | cons _ _ _ ih => exact (ih.cons _).trans (List.perm_cons_erase (by simp)).symm

theorem topological (h : Greedy needs done remaining order) : Topological needs done order := by
  induction h with
  | nil => trivial
  | cons _ hready _ ih => exact ⟨hready, ih⟩

/-- No other topological order is less at the first position where it differs. -/
theorem least (h : Greedy needs done remaining order) {position : α → Nat}
    (hposition : remaining.Pairwise fun a b => position a < position b) {other : List α}
    (hperm : other.Perm remaining) (hother : Topological needs done other) :
    order.map position ≤ other.map position := by
  induction h generalizing other with
  | nil =>
    rw [List.perm_nil.mp hperm]
  | @cons done before after rest a hbefore hready _ ih =>
    cases other with
    | nil => exact absurd hperm.symm (by simp)
    | cons x other =>
      obtain ⟨hx, htopological⟩ := hother
      rw [List.map_cons, List.map_cons]
      by_cases hsame : x = a
      · subst hsame
        apply List.cons_le_cons
        apply ih (hposition.sublist List.erase_sublist) _ htopological
        simpa using hperm.erase x
      · have hmem : x ∈ before ++ a :: after := hperm.subset List.mem_cons_self
        rcases List.mem_append.mp hmem with hmem | hmem
        · exact absurd hx (hbefore x hmem)
        · have hafter := (List.mem_cons.mp hmem).resolve_left hsame
          have hlt := (List.pairwise_cons.mp (List.pairwise_append.mp hposition).2.1).1 x hafter
          exact le_of_lt (List.Lex.rel hlt)

end Greedy

theorem exists_ready (hacyclic : ∀ a, ¬Relation.TransGen needs a a) (hne : remaining ≠ [])
    (hclosed : ∀ a ∈ remaining, ∀ b, needs a b → b ∈ done ∨ b ∈ remaining) :
    ∃ a ∈ remaining, Ready needs done a := by
  let before : α → α → Prop := fun b a => Relation.TransGen needs a b
  have hstrict : IsStrictOrder α before :=
    { irrefl := hacyclic, trans := fun _ _ _ hab hbc => hbc.trans hab }
  have hfinite : {a | a ∈ remaining}.Finite := remaining.finite_toSet
  have hwf : {a | a ∈ remaining}.WellFoundedOn before := hfinite.wellFoundedOn
  obtain ⟨first, hfirst⟩ := List.exists_mem_of_ne_nil remaining hne
  obtain ⟨⟨a, ha⟩, -, hmin⟩ := WellFounded.has_min hwf Set.univ ⟨⟨first, hfirst⟩, trivial⟩
  refine ⟨a, ha, ?_⟩
  intro b hneeds
  apply (hclosed a ha b hneeds).resolve_right
  intro hb
  exact hmin ⟨b, hb⟩ trivial (.single hneeds)

end OpenRupiv.Lib
