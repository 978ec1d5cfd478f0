import Mathlib.Data.List.Forall2
import Mathlib.Data.List.Perm.Basic
import Mathlib.Data.Option.Basic

/-!
# Lists up to order

`PermOf R` relates a list to a rearrangement of it in which each item is replaced by a related one,
as in a tree whose nodes list their children in any order.  What is said of all items, of some item
or of the names of the items carries over.
-/

namespace OpenRupiv.Lib

variable {α β γ : Type} {R : α → β → Prop} {xs : List α} {ys : List β}

def PermOf (R : α → β → Prop) (xs : List α) (ys : List β) : Prop :=
  ∃ zs, xs.Perm zs ∧ List.Forall₂ R zs ys

namespace PermOf

theorem exists_right (h : PermOf R xs ys) {x : α} (hx : x ∈ xs) : ∃ y ∈ ys, R x y := by
  obtain ⟨zs, hperm, hall⟩ := h
  have hz := hperm.mem_iff.mp hx
  clear hx hperm
  induction hall with
  | nil => exact absurd hz List.not_mem_nil
  | cons hr _ ih =>
    rcases List.mem_cons.mp hz with rfl | hz
    · exact ⟨_, List.mem_cons_self, hr⟩
    · obtain ⟨y, hy, hr'⟩ := ih hz
      exact ⟨y, List.mem_cons_of_mem _ hy, hr'⟩

theorem exists_left (h : PermOf R xs ys) {y : β} (hy : y ∈ ys) : ∃ x ∈ xs, R x y := by
  obtain ⟨zs, hperm, hall⟩ := h
  have hz : ∃ z ∈ zs, R z y := by
    clear hperm
    induction hall with
    | nil => exact absurd hy List.not_mem_nil
    | cons hr _ ih =>
      rcases List.mem_cons.mp hy with rfl | hy
      · exact ⟨_, List.mem_cons_self, hr⟩
      · obtain ⟨z, hz, hr'⟩ := ih hy
        exact ⟨z, List.mem_cons_of_mem _ hz, hr'⟩
  obtain ⟨z, hz, hr⟩ := hz
  exact ⟨z, hperm.mem_iff.mpr hz, hr⟩

theorem forall_iff {p : α → Prop} {q : β → Prop} (h : PermOf R xs ys)
    (hpq : ∀ x ∈ xs, ∀ y ∈ ys, R x y → (p x ↔ q y)) : (∀ x ∈ xs, p x) ↔ ∀ y ∈ ys, q y := by
  constructor
  · intro hall y hy
    obtain ⟨x, hx, hr⟩ := h.exists_left hy
    exact (hpq x hx y hy hr).mp (hall x hx)
  · intro hall x hx
    obtain ⟨y, hy, hr⟩ := h.exists_right hx
    exact (hpq x hx y hy hr).mpr (hall y hy)

theorem exists_iff {p : α → Prop} {q : β → Prop} (h : PermOf R xs ys)
    (hpq : ∀ x ∈ xs, ∀ y ∈ ys, R x y → (p x ↔ q y)) : (∃ x ∈ xs, p x) ↔ ∃ y ∈ ys, q y := by
  constructor
  · rintro ⟨x, hx, hp⟩
    obtain ⟨y, hy, hr⟩ := h.exists_right hx
    exact ⟨y, hy, (hpq x hx y hy hr).mp hp⟩
  · rintro ⟨y, hy, hq⟩
    obtain ⟨x, hx, hr⟩ := h.exists_left hy
    exact ⟨x, hx, (hpq x hx y hy hr).mpr hq⟩

theorem map_perm {f : α → γ} {g : β → γ} (h : PermOf R xs ys) (hfg : ∀ x y, R x y → f x = g y) :
    (xs.map f).Perm (ys.map g) := by
  obtain ⟨zs, hperm, hall⟩ := h
  have hzs : zs.map f = ys.map g := by
    clear hperm
    induction hall with
    | nil => rfl
    | cons hr _ ih => rw [List.map_cons, List.map_cons, hfg _ _ hr, ih]
  rw [← hzs]
  exact hperm.map f

theorem flatMap_perm {f : α → List γ} {g : β → List γ} (h : PermOf R xs ys)
    (hfg : ∀ x y, R x y → (f x).Perm (g y)) : (xs.flatMap f).Perm (ys.flatMap g) := by
  obtain ⟨zs, hperm, hall⟩ := h
  have hzs : (zs.flatMap f).Perm (ys.flatMap g) := by
    clear hperm
    induction hall with
    | nil => exact .refl _
    | cons hr _ ih =>
      rw [List.flatMap_cons, List.flatMap_cons]
      exact (hfg _ _ hr).append ih
  exact (hperm.flatMap_right f).trans hzs

theorem eq_nil_iff (h : PermOf R xs ys) : xs = [] ↔ ys = [] := by
  obtain ⟨zs, hperm, hall⟩ := h
  cases hall with
  | nil => simp [hperm.eq_nil]
  | cons =>
    have hne : xs ≠ [] := by
      rintro rfl
      exact absurd hperm.symm.eq_nil (by simp)
    simp [hne]

theorem of_perm {xs ys : List α} (h : xs.Perm ys) {R : α → α → Prop} (hrefl : ∀ x, R x x) :
    PermOf R xs ys :=
  ⟨ys, h, List.forall₂_same.mpr fun x _ => hrefl x⟩

end PermOf

variable {x : Option α} {y : Option β}

theorem isSome_of_rel (h : Option.Rel R x y) : x.isSome = y.isSome := by
  cases h <;> rfl

theorem permOf_getD {x : Option (List α)} {y : Option (List β)} (h : Option.Rel (PermOf R) x y) :
    PermOf R (x.getD []) (y.getD []) := by
  cases h with
  | none => exact ⟨[], .refl _, .nil⟩
  | some h => exact h

theorem perm_getD {x y : Option (List α)} (h : Option.Rel List.Perm x y) :
    (x.getD []).Perm (y.getD []) := by
  cases h with
  | none => exact .refl _
  | some h => exact h

theorem rel_refl {R : α → α → Prop} (h : ∀ a, R a a) (x : Option α) : Option.Rel R x x := by
  cases x with
  | none => exact .none
  | some a => exact .some (h a)

theorem all_iff_of_rel {p : α → Bool} {q : β → Bool} (h : Option.Rel R x y)
    (hpq : ∀ a b, R a b → p a = q b) : x.all p = y.all q := by
  cases h with
  | none => rfl
  | some hr => exact hpq _ _ hr

end OpenRupiv.Lib
