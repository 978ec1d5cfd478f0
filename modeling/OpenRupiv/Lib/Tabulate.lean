import Mathlib.Data.List.Nodup
import OpenRupiv.Lib.Reordering

/-!
# Lists read as tables

A list whose items have distinct keys is a partial function from the keys.  Two lists give the same
function exactly when each item of either has a partner of its key in the other.
-/

namespace OpenRupiv.Lib

variable {α β κ : Type} [DecidableEq κ] {key : α → κ} {form : α → β} {xs ys : List α}

theorem find_named_eq_some_iff (hnd : (xs.map key).Nodup) {k : κ} {x : α} :
    (xs.find? fun y => key y = k) = some x ↔ x ∈ xs ∧ key x = k := by
  constructor
  · intro h
    exact ⟨List.mem_of_find?_eq_some h, by simpa using List.find?_some h⟩
  · rintro ⟨hx, hkey⟩
    have hsome : (xs.find? fun y => key y = k).isSome = true :=
      List.find?_isSome.mpr ⟨x, hx, by simpa using hkey⟩
    obtain ⟨y, hy⟩ := Option.isSome_iff_exists.mp hsome
    have hykey : key y = k := by simpa using List.find?_some hy
    rw [hy, List.inj_on_of_nodup_map hnd (List.mem_of_find?_eq_some hy) hx (hykey.trans hkey.symm)]

/-- The form of the item of each key. -/
def tabulate (key : α → κ) (form : α → β) (xs : List α) : κ → Option β :=
  fun k => (xs.find? fun x => key x = k).map form

theorem tabulate_eq_some_iff (form : α → β) (hnd : (xs.map key).Nodup) {k : κ} {b : β} :
    tabulate key form xs k = some b ↔ ∃ x ∈ xs, key x = k ∧ form x = b := by
  simp only [tabulate, Option.map_eq_some_iff, find_named_eq_some_iff hnd, and_assoc]

theorem tabulate_eq_iff (hxs : (xs.map key).Nodup) (hys : (ys.map key).Nodup) :
    tabulate key form xs = tabulate key form ys ↔
      (∀ x ∈ xs, ∃ y ∈ ys, key y = key x ∧ form x = form y) ∧
        ∀ y ∈ ys, ∃ x ∈ xs, key x = key y ∧ form x = form y := by
  constructor
  · intro h
    constructor
    · intro x hx
      have hsome := (tabulate_eq_some_iff form hxs).mpr ⟨x, hx, rfl, rfl⟩
      rw [h] at hsome
      obtain ⟨y, hy, hkey, hform⟩ := (tabulate_eq_some_iff form hys).mp hsome
      exact ⟨y, hy, hkey, hform.symm⟩
    · intro y hy
      have hsome := (tabulate_eq_some_iff form hys).mpr ⟨y, hy, rfl, rfl⟩
      rw [← h] at hsome
      exact (tabulate_eq_some_iff form hxs).mp hsome
  · intro h
    funext k
    apply Option.ext
    intro b
    rw [tabulate_eq_some_iff form hxs, tabulate_eq_some_iff form hys]
    constructor
    · intro hx
      obtain ⟨x, hx, hkey, hform⟩ := hx
      obtain ⟨y, hy, hkeys, hforms⟩ := h.1 x hx
      exact ⟨y, hy, hkeys.trans hkey, hforms.symm.trans hform⟩
    · intro hy
      obtain ⟨y, hy, hkey, hform⟩ := hy
      obtain ⟨x, hx, hkeys, hforms⟩ := h.2 y hy
      exact ⟨x, hx, hkeys.trans hkey, hforms.trans hform⟩

theorem tabulate_permOf {R : α → α → Prop} (h : PermOf R xs ys) (hnd : (xs.map key).Nodup)
    (hkey : ∀ x y, R x y → key x = key y)
    (hform : ∀ x ∈ xs, ∀ y ∈ ys, R x y → form x = form y) :
    tabulate key form xs = tabulate key form ys := by
  have hys : (ys.map key).Nodup := (h.map_perm hkey).nodup_iff.mp hnd
  rw [tabulate_eq_iff hnd hys]
  constructor
  · intro x hx
    obtain ⟨y, hy, hr⟩ := h.exists_right hx
    exact ⟨y, hy, (hkey x y hr).symm, hform x hx y hy hr⟩
  · intro y hy
    obtain ⟨x, hx, hr⟩ := h.exists_left hy
    exact ⟨x, hx, hkey x y hr, hform x hx y hy hr⟩

end OpenRupiv.Lib
