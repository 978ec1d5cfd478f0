import Mathlib.Logic.Relation

/-!
# Paths of every length

`Deep R k a`: a path of `k` steps of `R` leads away from `a`.  Paths of every length lead away from
what lies on a circle and from what leads to it, and a simulation keeps their lengths.
-/

namespace OpenRupiv.Lib

variable {α β : Type} {R : α → α → Prop} {S : β → β → Prop} {a b : α} {k : Nat}

def Deep (R : α → α → Prop) : Nat → α → Prop
  | 0, _ => True
  | k + 1, a => ∃ b, R a b ∧ Deep R k b

def Endless (R : α → α → Prop) (a : α) : Prop := ∀ k, Deep R k a

theorem Deep.of_succ (h : Deep R (k + 1) a) : Deep R k a := by
  induction k generalizing a with
  | zero => exact trivial
  | succ k ih =>
    obtain ⟨b, hstep, hb⟩ := h
    exact ⟨b, hstep, ih hb⟩

theorem Deep.of_transGen (h : Relation.TransGen R a b) (hb : Deep R k b) : Deep R (k + 1) a := by
  induction h using Relation.TransGen.head_induction_on with
  | single hstep => exact ⟨b, hstep, hb⟩
  | head hstep _ ih => exact ⟨_, hstep, ih.of_succ⟩

theorem endless_of_circle (h : Relation.TransGen R a a) : Endless R a := by
  intro k
  induction k with
  | zero => exact trivial
  | succ k ih => exact ih.of_transGen h

theorem Endless.of_step (h : Endless R b) (hstep : R a b) : Endless R a
  | 0 => trivial
  | k + 1 => ⟨b, hstep, h k⟩

theorem Deep.follow {T : α → β → Prop}
    (hfollow : ∀ {a a' b}, T a a' → R a b → ∃ b', S a' b' ∧ T b b') {a' : β} (h : T a a')
    (ha : Deep R k a) : Deep S k a' := by
  induction k generalizing a a' with
  | zero => exact trivial
  | succ k ih =>
    obtain ⟨b, hstep, hb⟩ := ha
    obtain ⟨b', hstep', hT⟩ := hfollow h hstep
    exact ⟨b', hstep', ih hT hb⟩

end OpenRupiv.Lib
