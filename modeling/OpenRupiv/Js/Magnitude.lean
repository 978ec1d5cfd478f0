import OpenRupiv.Js.Date
import Mathlib.Algebra.Order.Field.Power
import Mathlib.Tactic.Positivity

/-!
# The size of a number

The rational number that a decimal stands for.  Trimmed digits and the position of the point are
determined by it.
-/

namespace OpenRupiv.Js

/-- The absolute value of a nonzero number. -/
def magnitude (d : Decimal) : ℚ := digitsValue d.digits * (10 : ℚ) ^ (d.point - d.digits.length)

theorem le_digitsValue {ds : List Digit} (hne : ds ≠ []) (hhead : ds.head? ≠ some 0) :
    10 ^ (ds.length - 1) ≤ digitsValue ds := by
  induction ds using List.reverseRecOn with
  | nil => exact absurd rfl hne
  | append_singleton ds d ih =>
    rw [digitsValue_concat, List.length_append, List.length_singleton, Nat.add_sub_cancel]
    cases ds with
    | nil =>
      have hd : d ≠ 0 := by simpa using hhead
      have hval : d.val ≠ 0 := fun h => hd (Fin.ext h)
      simp only [List.length_nil, pow_zero]
      omega
    | cons e ds =>
      have hrest := ih (by simp) (by simpa using hhead)
      rw [List.length_cons, Nat.add_sub_cancel] at hrest
      rw [List.length_cons, pow_succ]
      omega

theorem digitsValue_mod_ten {ds : List Digit} (hne : ds ≠ []) (hlast : ds.getLast? ≠ some 0) :
    digitsValue ds % 10 ≠ 0 := by
  rcases List.eq_nil_or_concat' ds with rfl | ⟨front, d, rfl⟩
  · exact absurd rfl hne
  · have hd : d ≠ 0 := by simpa using hlast
    have hval : d.val ≠ 0 := fun h => hd (Fin.ext h)
    rw [digitsValue_concat]
    omega

theorem digits_eq_of_value {ds es : List Digit} (hd : Trimmed ds) (he : Trimmed es)
    (h : digitsValue ds = digitsValue es) : ds = es := by
  have hlength : ds.length = es.length := by
    have hds := le_digitsValue hd.1 hd.2.1
    have hes := le_digitsValue he.1 he.2.1
    have hds' := digitsValue_lt ds
    have hes' := digitsValue_lt es
    rw [h] at hds hds'
    have h1 := (Nat.pow_lt_pow_iff_right (by decide : 1 < 10)).mp (lt_of_le_of_lt hds hes')
    have h2 := (Nat.pow_lt_pow_iff_right (by decide : 1 < 10)).mp (lt_of_le_of_lt hes hds')
    have := List.length_pos_of_ne_nil hd.1
    have := List.length_pos_of_ne_nil he.1
    omega
  rw [← padDigits_digitsValue ds, ← padDigits_digitsValue es, h, hlength]

theorem magnitude_pos (d : Decimal) : 0 < magnitude d := by
  have hle := le_digitsValue d.trimmed.1 d.trimmed.2.1
  have hpos : 0 < digitsValue d.digits := lt_of_lt_of_le (by positivity) hle
  unfold magnitude
  positivity

private theorem exponent_le {d e : Decimal} (h : magnitude d = magnitude e) :
    e.point - e.digits.length ≤ d.point - d.digits.length := by
  by_contra hlt
  rw [not_le] at hlt
  obtain ⟨k, hk⟩ : ∃ k : Nat, e.point - e.digits.length = d.point - d.digits.length + (k + 1 : Nat) :=
    ⟨(e.point - e.digits.length - (d.point - d.digits.length) - 1).toNat, by omega⟩
  unfold magnitude at h
  rw [hk, zpow_add₀ (by norm_num), zpow_natCast, mul_comm ((10 : ℚ) ^ _) (10 ^ (k + 1)), ← mul_assoc]
    at h
  have hcancel := mul_right_cancel₀ (by positivity) h
  have hnat : digitsValue d.digits = digitsValue e.digits * 10 ^ (k + 1) := by exact_mod_cast hcancel
  apply digitsValue_mod_ten d.trimmed.1 d.trimmed.2.2
  rw [hnat, pow_succ, ← mul_assoc, Nat.mul_mod_left]

theorem magnitude_inj {d e : Decimal} (h : magnitude d = magnitude e) :
    d.digits = e.digits ∧ d.point = e.point := by
  have hexponent : d.point - d.digits.length = e.point - e.digits.length :=
    le_antisymm (exponent_le h.symm) (exponent_le h)
  have hdigits : d.digits = e.digits := by
    apply digits_eq_of_value d.trimmed e.trimmed
    unfold magnitude at h
    rw [hexponent] at h
    exact_mod_cast mul_right_cancel₀ (by positivity) h
  refine ⟨hdigits, ?_⟩
  rw [hdigits] at hexponent
  omega

end OpenRupiv.Js
