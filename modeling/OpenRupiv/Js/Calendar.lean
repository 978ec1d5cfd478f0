import OpenRupiv.Js.Date
import Mathlib.Order.Compare

/-!
# Calendar dates

Dates of the proleptic Gregorian calendar, their order, and the instants of their midnights.
-/

namespace OpenRupiv.Js

structure CalendarDate where
  year : Int
  month : Nat
  day : Nat
  month_mem : 1 ≤ month ∧ month ≤ 12
  day_mem : 1 ≤ day ∧ day ≤ daysInMonth (isLeap year) month
  deriving DecidableEq

namespace CalendarDate

/-- Year, month and day, in this order. -/
def compare (a b : CalendarDate) : Ordering :=
  (Ord.compare a.year b.year).then ((Ord.compare a.month b.month).then (Ord.compare a.day b.day))

/-- `YYYY-MM-DD`, for the years 0 to 9999. -/
def text (a : CalendarDate) : String :=
  let digits (w n : Nat) := String.ofList ((padDigits w n).map digitChar)
  digits 4 a.year.toNat ++ "-" ++ digits 2 a.month ++ "-" ++ digits 2 a.day

def dayOfYear (a : CalendarDate) : Nat := dayBeforeMonth (isLeap a.year) a.month + (a.day - 1)

/-- Days after 1970-01-01. -/
def dayNumber (a : CalendarDate) : Int := dayFromYear a.year + a.dayOfYear

def utcMidnight (a : CalendarDate) : Int := 86400000 * a.dayNumber

private theorem dayBeforeMonth_le {leap : Bool} {m m' : Nat} (hm : 1 ≤ m) (hle : m ≤ m')
    (hm' : m' ≤ 13) : dayBeforeMonth leap m ≤ dayBeforeMonth leap m' := by
  have key : ∀ leap : Bool, ∀ m ∈ List.range' 1 13, ∀ m' ∈ List.range' 1 13, m ≤ m' →
      dayBeforeMonth leap m ≤ dayBeforeMonth leap m' := by decide
  apply key leap m _ m' _ hle
  · rw [List.mem_range'_1]
    omega
  · rw [List.mem_range'_1]
    omega

private theorem dayOfYear_lt_dayBeforeMonth (a : CalendarDate) {m : Nat} (hlt : a.month < m)
    (hm : m ≤ 13) : a.dayOfYear < dayBeforeMonth (isLeap a.year) m := by
  have hmonth := a.month_mem
  have hday := a.day_mem
  have hnext : dayBeforeMonth (isLeap a.year) (a.month + 1) ≤ dayBeforeMonth (isLeap a.year) m :=
    dayBeforeMonth_le (by omega) hlt hm
  have hself : dayBeforeMonth (isLeap a.year) a.month ≤ dayBeforeMonth (isLeap a.year) (a.month + 1) :=
    dayBeforeMonth_le hmonth.1 (by omega) (by omega)
  unfold daysInMonth at hday
  unfold dayOfYear
  omega

private theorem dayNumber_lt_dayFromYear (a : CalendarDate) {y : Int} (hlt : a.year < y) :
    a.dayNumber < dayFromYear y := by
  have hday := a.dayOfYear_lt_dayBeforeMonth (m := 13) (by have := a.month_mem; omega) le_rfl
  have hlength : dayFromYear a.year + dayBeforeMonth (isLeap a.year) 13 ≤ dayFromYear (a.year + 1) := by
    cases hleap : isLeap a.year with
    | false =>
      simp only [dayBeforeMonth, Bool.false_and, Bool.false_eq_true, if_false]
      unfold dayFromYear
      omega
    | true =>
      simp only [isLeap, Bool.and_eq_true, Bool.or_eq_true, decide_eq_true_eq] at hleap
      simp only [dayBeforeMonth, Bool.true_and, decide_eq_true_eq]
      rw [if_pos (by decide)]
      unfold dayFromYear
      omega
  have hmono : dayFromYear (a.year + 1) ≤ dayFromYear y := by
    unfold dayFromYear
    omega
  unfold dayNumber
  omega

theorem compare_eq (a b : CalendarDate) : a.compare b = Ord.compare a.dayNumber b.dayNumber := by
  have hstart : ∀ c : CalendarDate, dayFromYear c.year ≤ c.dayNumber := by
    intro c
    unfold dayNumber
    omega
  unfold compare
  rcases lt_trichotomy a.year b.year with hyear | hyear | hyear
  · rw [compare_lt_iff_lt.mpr hyear, Ordering.lt_then, eq_comm, compare_lt_iff_lt]
    exact lt_of_lt_of_le (a.dayNumber_lt_dayFromYear hyear) (hstart b)
  · rw [compare_eq_iff_eq.mpr hyear, Ordering.eq_then]
    rcases lt_trichotomy a.month b.month with hmonth | hmonth | hmonth
    · rw [compare_lt_iff_lt.mpr hmonth, Ordering.lt_then, eq_comm, compare_lt_iff_lt]
      have hlt := a.dayOfYear_lt_dayBeforeMonth hmonth (by have := b.month_mem; omega)
      unfold dayNumber
      rw [hyear] at hlt ⊢
      unfold dayOfYear at hlt ⊢
      omega
    · rw [compare_eq_iff_eq.mpr hmonth, Ordering.eq_then]
      have ha := a.day_mem.1
      have hb := b.day_mem.1
      have hnumbers : b.dayNumber - a.dayNumber = b.day - a.day := by
        unfold dayNumber dayOfYear
        rw [hyear, hmonth]
        omega
      rcases lt_trichotomy a.day b.day with hday | hday | hday
      · rw [compare_lt_iff_lt.mpr hday, eq_comm, compare_lt_iff_lt]
        omega
      · rw [compare_eq_iff_eq.mpr hday, eq_comm, compare_eq_iff_eq]
        omega
      · rw [compare_gt_iff_gt.mpr hday, eq_comm, compare_gt_iff_gt]
        omega
    · rw [compare_gt_iff_gt.mpr hmonth, Ordering.gt_then, eq_comm, compare_gt_iff_gt]
      have hlt := b.dayOfYear_lt_dayBeforeMonth hmonth (by have := a.month_mem; omega)
      unfold dayNumber
      rw [← hyear] at hlt ⊢
      unfold dayOfYear at hlt ⊢
      omega
  · rw [compare_gt_iff_gt.mpr hyear, Ordering.gt_then, eq_comm, compare_gt_iff_gt]
    exact lt_of_lt_of_le (b.dayNumber_lt_dayFromYear hyear) (hstart a)

theorem compare_eq_eq_iff {a b : CalendarDate} : a.compare b = .eq ↔ a = b := by
  unfold compare
  rw [Ordering.then_eq_eq, Ordering.then_eq_eq, compare_eq_iff_eq, compare_eq_iff_eq,
    compare_eq_iff_eq]
  constructor
  · rintro ⟨hyear, hmonth, hday⟩
    cases a
    cases b
    simp_all
  · rintro rfl
    exact ⟨rfl, rfl, rfl⟩

theorem dayNumber_inj {a b : CalendarDate} (h : a.dayNumber = b.dayNumber) : a = b := by
  rw [← compare_eq_eq_iff, compare_eq, compare_eq_iff_eq]
  exact h

end CalendarDate

end OpenRupiv.Js
