import OpenRupiv.Js.Text
import OpenRupiv.Js.Number
import Mathlib.Tactic.Common

/-!
# Dates

RFC 3339 timestamps in UTC, the instants they denote, and `Date.prototype.toISOString`.  An RFC
3339 text is the ISO text of its instant exactly when it is written the way `toISOString` writes:
upper-case `T` and `Z`, three fraction digits, no leap second.
-/

namespace OpenRupiv.Js

def isLeap (y : Int) : Bool := y % 4 = 0 && (y % 100 ≠ 0 || y % 400 = 0)

/-- Days of the year before month `m`. -/
def dayBeforeMonth (leap : Bool) (m : Nat) : Nat :=
  let d := match m with
    | 1 => 0
    | 2 => 31
    | 3 => 59
    | 4 => 90
    | 5 => 120
    | 6 => 151
    | 7 => 181
    | 8 => 212
    | 9 => 243
    | 10 => 273
    | 11 => 304
    | 12 => 334
    | _ => 365
  if leap && 2 < m then d + 1 else d

def daysInMonth (leap : Bool) (m : Nat) : Nat := dayBeforeMonth leap (m + 1) - dayBeforeMonth leap m

/-- `DayFromYear`: days from 1970-01-01 to the first day of year `y`. -/
def dayFromYear (y : Int) : Int :=
  365 * (y - 1970) + (y - 1969) / 4 - (y - 1901) / 100 + (y - 1601) / 400

/-- `YearFromTime`, on days: the year that `day` falls in. -/
def yearFromDay (day : Int) : Int :=
  let y := 1970 + 400 * day / 146097
  if day < dayFromYear y then y - 1 else if dayFromYear (y + 1) ≤ day then y + 1 else y

/-- The month that day `doy` of the year falls in. -/
def monthFromDay (leap : Bool) (doy : Nat) : Nat :=
  ((List.range 11).filter fun i => decide (dayBeforeMonth leap (i + 2) ≤ doy)).length + 1

theorem yearFromDay_eq {y day : Int} (hlo : dayFromYear y ≤ day) (hhi : day < dayFromYear (y + 1)) :
    yearFromDay day = y := by
  unfold yearFromDay
  simp only
  have hclose : y - 1 ≤ 1970 + 400 * day / 146097 ∧ 1970 + 400 * day / 146097 ≤ y + 1 := by
    unfold dayFromYear at hlo hhi
    omega
  obtain h | h | h : 1970 + 400 * day / 146097 = y - 1 ∨ 1970 + 400 * day / 146097 = y ∨
      1970 + 400 * day / 146097 = y + 1 := by omega
  · rw [h, sub_add_cancel, if_neg, if_pos hlo]
    have hmono : dayFromYear (y - 1) ≤ dayFromYear y := by
      unfold dayFromYear
      omega
    omega
  · rw [h, if_neg (by omega), if_neg (by omega)]
  · rw [h, if_pos hhi]
    omega

private theorem isLeap_iff (y : Int) :
    isLeap y = true ↔ y % 4 = 0 ∧ (y % 100 ≠ 0 ∨ y % 400 = 0) := by
  simp [isLeap]

private theorem dayFromYear_succ (y : Int) :
    dayFromYear (y + 1) = dayFromYear y + if isLeap y then 366 else 365 := by
  have hleap := isLeap_iff y
  unfold dayFromYear
  split
  · rename_i h
    have := hleap.mp h
    omega
  · rename_i h
    have := mt hleap.mpr h
    omega

private theorem monthFromDay_eq {leap : Bool} {m d : Nat} (hm : 1 ≤ m ∧ m ≤ 12) (hd : 1 ≤ d)
    (hd' : d ≤ daysInMonth leap m) : monthFromDay leap (dayBeforeMonth leap m + (d - 1)) = m := by
  have hmem : m ∈ List.range' 1 12 := by
    rw [List.mem_range'_1]
    omega
  have hcount : ∀ m ∈ List.range' 1 12,
      ((List.range 11).filter fun i => decide (i + 2 ≤ m)).length + 1 = m := by decide
  have hfirst : ∀ leap : Bool, ∀ m ∈ List.range' 1 12, ∀ i ∈ List.range 11,
      if i + 2 ≤ m then dayBeforeMonth leap (i + 2) ≤ dayBeforeMonth leap m
      else dayBeforeMonth leap m + daysInMonth leap m ≤ dayBeforeMonth leap (i + 2) := by
    decide +kernel
  -- of the first days of the later months, those up to month `m` are not after the day
  have hfilter : (List.range 11).filter (fun i =>
      decide (dayBeforeMonth leap (i + 2) ≤ dayBeforeMonth leap m + (d - 1))) =
        (List.range 11).filter fun i => decide (i + 2 ≤ m) := by
    refine List.filter_congr fun i hi => decide_eq_decide.mpr ?_
    have hle := hfirst leap m hmem i hi
    split at hle <;> omega
  rw [monthFromDay, hfilter]
  exact hcount m hmem

def digitUnit (d : Digit) : UInt16 := UInt16.ofNat (48 + d.val)

/-- The last `w` decimal digits of `n`. -/
def padDigits : Nat → Nat → List Digit
  | 0, _ => []
  | w + 1, n => padDigits w (n / 10) ++ [Fin.ofNat 10 n]

def pad (w n : Nat) : Text := (padDigits w n).map digitUnit

/-- Four digits, or a sign and six. -/
def yearText (y : Int) : Text :=
  if 0 ≤ y ∧ y ≤ 9999 then pad 4 y.toNat
  else ofString (if y < 0 then "-" else "+") ++ pad 6 y.natAbs

/-- `Date.prototype.toISOString` of `ms` milliseconds after 1970-01-01T00:00:00Z. -/
def toISOString (ms : Int) : Text :=
  let day := ms / 86400000
  let rest := (ms % 86400000).toNat
  let y := yearFromDay day
  let doy := (day - dayFromYear y).toNat
  let m := monthFromDay (isLeap y) doy
  yearText y ++ ofString "-" ++ pad 2 m ++ ofString "-" ++ pad 2 (doy - dayBeforeMonth (isLeap y) m + 1) ++
    ofString "T" ++ pad 2 (rest / 3600000) ++ ofString ":" ++ pad 2 (rest / 60000 % 60) ++
    ofString ":" ++ pad 2 (rest / 1000 % 60) ++ ofString "." ++ pad 3 (rest % 1000) ++ ofString "Z"

/-- The ways RFC 3339 writes a zero offset. -/
inductive Zone where
  | upperZ
  | lowerZ
  | plus
  | minus
  deriving DecidableEq

def Zone.text : Zone → Text
  | .upperZ => ofString "Z"
  | .lowerZ => ofString "z"
  | .plus => ofString "+00:00"
  | .minus => ofString "-00:00"

/-- An RFC 3339 timestamp in UTC, with every choice its grammar leaves. -/
structure Rfc3339 where
  year : Nat
  month : Nat
  day : Nat
  hour : Nat
  minute : Nat
  second : Nat
  fraction : List Digit
  lowerT : Bool
  zone : Zone
  year_le : year ≤ 9999
  month_mem : 1 ≤ month ∧ month ≤ 12
  day_mem : 1 ≤ day ∧ day ≤ daysInMonth (isLeap year) month
  hour_le : hour ≤ 23
  minute_le : minute ≤ 59
  second_le : second ≤ 60

namespace Rfc3339

def text (t : Rfc3339) : Text :=
  pad 4 t.year ++ ofString "-" ++ pad 2 t.month ++ ofString "-" ++ pad 2 t.day ++
    ofString (if t.lowerT then "t" else "T") ++ pad 2 t.hour ++ ofString ":" ++ pad 2 t.minute ++
    ofString ":" ++ pad 2 t.second ++
    (if t.fraction = [] then [] else ofString "." ++ t.fraction.map digitUnit) ++ t.zone.text

/-- Whole seconds after 1970-01-01T00:00:00Z; a leap second counts as the second after it. -/
def epochSeconds (t : Rfc3339) : Int :=
  (dayFromYear t.year + dayBeforeMonth (isLeap t.year) t.month + (t.day - 1)) * 86400 +
    t.hour * 3600 + t.minute * 60 + t.second

theorem year2026_le : 2026 ≤ 9999 := by decide

theorem january_mem : 1 ≤ 1 ∧ 1 ≤ 12 := by decide

theorem zero_le_23 : 0 ≤ 23 := by decide

theorem zero_le_59 : 0 ≤ 59 := by decide

theorem zero_le_60 : 0 ≤ 60 := by decide

/-- The start of a year, as `toISOString` writes it. -/
def newYear (year : Nat) (h : year ≤ 9999) : Rfc3339 where
  year
  month := 1
  day := 1
  hour := 0
  minute := 0
  second := 0
  fraction := [0, 0, 0]
  lowerT := false
  zone := .upperZ
  year_le := h
  month_mem := january_mem
  day_mem := by
    cases isLeap year <;> decide
  hour_le := zero_le_23
  minute_le := zero_le_59
  second_le := zero_le_60

/-- The form that `toISOString` writes. -/
def IsoForm (t : Rfc3339) : Prop :=
  t.lowerT = false ∧ t.zone = .upperZ ∧ t.fraction.length = 3 ∧ t.second < 60

instance (t : Rfc3339) : Decidable t.IsoForm := by
  unfold IsoForm
  infer_instance

end Rfc3339

@[simp] theorem length_padDigits (w n : Nat) : (padDigits w n).length = w := by
  induction w generalizing n with
  | zero => rfl
  | succ w ih => simp [padDigits, ih]

@[simp] theorem length_pad (w n : Nat) : (pad w n).length = w := by
  simp [pad]

theorem padDigits_inj {w n m : Nat} (hn : n < 10 ^ w) (hm : m < 10 ^ w)
    (h : padDigits w n = padDigits w m) : n = m := by
  induction w generalizing n m with
  | zero =>
    rw [pow_zero] at hn hm
    omega
  | succ w ih =>
    rw [pow_succ] at hn hm
    rw [padDigits, padDigits] at h
    obtain ⟨hinit, hlast⟩ := List.append_inj' h rfl
    have hdiv : n / 10 = m / 10 := ih (by omega) (by omega) hinit
    have hmod : n % 10 = m % 10 := by
      simpa [Fin.ofNat, Fin.ext_iff] using hlast
    omega

private theorem digitUnit_injective : Function.Injective digitUnit := by
  intro d e h
  revert d e
  decide

theorem pad_inj {w n m : Nat} (hn : n < 10 ^ w) (hm : m < 10 ^ w) (h : pad w n = pad w m) :
    n = m :=
  padDigits_inj hn hm (List.map_injective_iff.mpr digitUnit_injective h)

theorem digitsValue_concat (ds : List Digit) (d : Digit) :
    digitsValue (ds ++ [d]) = 10 * digitsValue ds + d.val := by
  simp [digitsValue]

theorem digitsValue_lt (ds : List Digit) : digitsValue ds < 10 ^ ds.length := by
  induction ds using List.reverseRecOn with
  | nil => simp [digitsValue]
  | append_singleton ds d ih =>
    rw [digitsValue_concat, List.length_append, List.length_singleton, pow_succ]
    omega

theorem padDigits_digitsValue (ds : List Digit) : padDigits ds.length (digitsValue ds) = ds := by
  induction ds using List.reverseRecOn with
  | nil => rfl
  | append_singleton ds d ih =>
    rw [digitsValue_concat, List.length_append, List.length_singleton, padDigits]
    have hdiv : (10 * digitsValue ds + d.val) / 10 = digitsValue ds := by omega
    have hmod : Fin.ofNat 10 (10 * digitsValue ds + d.val) = d := by
      simp only [Fin.ofNat, Fin.ext_iff]
      omega
    rw [hdiv, hmod, ih]

private theorem dayOfYear_lt {leap : Bool} {m d : Nat} (hm : 1 ≤ m ∧ m ≤ 12)
    (hd : 1 ≤ d ∧ d ≤ daysInMonth leap m) :
    dayBeforeMonth leap m + (d - 1) < if leap then 366 else 365 := by
  have key : ∀ leap : Bool, ∀ m ∈ List.range' 1 12,
      dayBeforeMonth leap m + daysInMonth leap m ≤ if leap then 366 else 365 := by decide
  have hle := key leap m (by rw [List.mem_range'_1]; omega)
  omega

namespace Rfc3339

variable (t : Rfc3339)

private theorem yearFromDay_date :
    yearFromDay (dayFromYear t.year + dayBeforeMonth (isLeap t.year) t.month + (t.day - 1)) =
      t.year := by
  have hlt := dayOfYear_lt t.month_mem t.day_mem
  have hday := t.day_mem.1
  apply yearFromDay_eq
  · omega
  · rw [dayFromYear_succ]
    split <;> simp_all <;> omega

theorem toISOString_epoch (h : t.IsoForm) :
    toISOString (t.epochSeconds * 1000 + digitsValue t.fraction) = t.text := by
  obtain ⟨hT, hzone, hlen, hsec⟩ := h
  have hfrac := digitsValue_lt t.fraction
  rw [hlen] at hfrac
  have hday := t.day_mem.1
  have hhour := t.hour_le
  have hminute := t.minute_le
  have hne : t.fraction ≠ [] := by
    intro hnil
    simp [hnil] at hlen
  have hD : (t.epochSeconds * 1000 + digitsValue t.fraction) / 86400000 =
      dayFromYear t.year + dayBeforeMonth (isLeap t.year) t.month + (t.day - 1) := by
    unfold epochSeconds
    omega
  have hR : ((t.epochSeconds * 1000 + digitsValue t.fraction) % 86400000).toNat =
      t.hour * 3600000 + t.minute * 60000 + t.second * 1000 + digitsValue t.fraction := by
    unfold epochSeconds
    omega
  have hdoy : (dayFromYear t.year + dayBeforeMonth (isLeap t.year) t.month + ((t.day : Int) - 1) -
      dayFromYear t.year).toNat = dayBeforeMonth (isLeap t.year) t.month + (t.day - 1) := by
    omega
  have hpad : pad 3 (digitsValue t.fraction) = t.fraction.map digitUnit := by
    rw [pad, ← hlen, padDigits_digitsValue]
  have hyear : 0 ≤ (t.year : Int) ∧ (t.year : Int) ≤ 9999 := by
    have := t.year_le
    omega
  unfold toISOString text yearText
  simp only [hD, hR, t.yearFromDay_date, hdoy, monthFromDay_eq t.month_mem hday t.day_mem.2,
    if_pos hyear, hT, hzone, if_neg hne, Zone.text, Int.toNat_natCast]
  have h1 : dayBeforeMonth (isLeap t.year) t.month + (t.day - 1) -
      dayBeforeMonth (isLeap t.year) t.month + 1 = t.day := by omega
  have h2 : (t.hour * 3600000 + t.minute * 60000 + t.second * 1000 + digitsValue t.fraction) /
      3600000 = t.hour := by omega
  have h3 : (t.hour * 3600000 + t.minute * 60000 + t.second * 1000 + digitsValue t.fraction) /
      60000 % 60 = t.minute := by omega
  have h4 : (t.hour * 3600000 + t.minute * 60000 + t.second * 1000 + digitsValue t.fraction) /
      1000 % 60 = t.second := by omega
  have h5 : (t.hour * 3600000 + t.minute * 60000 + t.second * 1000 + digitsValue t.fraction) %
      1000 = digitsValue t.fraction := by omega
  simp only [h1, h2, h3, h4, h5, hpad, List.append_assoc]
  rfl

private theorem isoForm_tail {fraction : List Digit} {zone : Zone} {n : Nat}
    (h : (if fraction = [] then [] else ofString "." ++ fraction.map digitUnit) ++ zone.text =
      ofString "." ++ (pad 3 n ++ ofString "Z")) :
    zone = .upperZ ∧ fraction.length = 3 := by
  by_cases hnil : fraction = []
  · rw [if_pos hnil, List.nil_append] at h
    have hhead := congrArg List.head? h
    cases zone <;> simp [Zone.text, ofString, utf16] at hhead
  · rw [if_neg hnil, List.append_assoc] at h
    have hrest := List.append_cancel_left h
    have hlast := congrArg List.getLast? hrest
    cases zone with
    | upperZ =>
      have := (List.append_inj' hrest rfl).1
      refine ⟨rfl, ?_⟩
      simpa using congrArg List.length this
    | lowerZ => simp [Zone.text, ofString, utf16] at hlast
    | plus => simp [Zone.text, ofString, utf16] at hlast
    | minus => simp [Zone.text, ofString, utf16] at hlast

private theorem yearText_signed {y : Int} (h : ¬(0 ≤ y ∧ y ≤ 9999)) :
    ∃ u rest, yearText y = u :: rest ∧ (u = 45 ∨ u = 43) := by
  rw [yearText, if_neg h]
  by_cases hneg : y < 0
  · rw [if_pos hneg]
    exact ⟨45, pad 6 y.natAbs, rfl, .inl rfl⟩
  · rw [if_neg hneg]
    exact ⟨43, pad 6 y.natAbs, rfl, .inr rfl⟩

/-- `toISOString` writes nothing but the ISO form. -/
theorem isoForm_of_text_eq {ms : Int} (h : t.text = toISOString ms) : t.IsoForm := by
  unfold text toISOString at h
  simp only [List.append_assoc] at h
  by_cases hy : 0 ≤ yearFromDay (ms / 86400000) ∧ yearFromDay (ms / 86400000) ≤ 9999
  · rw [yearText, if_pos hy] at h
    obtain ⟨-, h⟩ := List.append_inj h (by simp)
    obtain ⟨-, h⟩ := List.append_inj h rfl
    obtain ⟨-, h⟩ := List.append_inj h (by simp)
    obtain ⟨-, h⟩ := List.append_inj h rfl
    obtain ⟨-, h⟩ := List.append_inj h (by simp)
    obtain ⟨hT, h⟩ := List.append_inj h (by cases t.lowerT <;> rfl)
    obtain ⟨-, h⟩ := List.append_inj h (by simp)
    obtain ⟨-, h⟩ := List.append_inj h rfl
    obtain ⟨-, h⟩ := List.append_inj h (by simp)
    obtain ⟨-, h⟩ := List.append_inj h rfl
    obtain ⟨hsec, h⟩ := List.append_inj h (by simp)
    obtain ⟨hzone, hlen⟩ := isoForm_tail h
    have hle := t.second_le
    have hsecond := pad_inj (by omega) (by omega) hsec
    refine ⟨?_, hzone, hlen, by omega⟩
    cases hl : t.lowerT with
    | false => rfl
    | true =>
      rw [hl] at hT
      exact absurd hT (by decide)
  · -- a signed year does not start with a digit
    obtain ⟨u, rest, hu, hsign⟩ := yearText_signed hy
    have hhead := congrArg List.head? h
    have hdigit : ∀ d : Digit, digitUnit d ≠ 45 ∧ digitUnit d ≠ 43 := by decide
    obtain ⟨d, rest', hd⟩ : ∃ d rest, pad 4 t.year = digitUnit d :: rest := ⟨_, _, rfl⟩
    rw [hd, hu] at hhead
    simp only [List.cons_append, List.head?_cons, Option.some.injEq] at hhead
    cases hsign with
    | inl h => exact absurd (hhead.trans h) (hdigit d).1
    | inr h => exact absurd (hhead.trans h) (hdigit d).2

end Rfc3339

end OpenRupiv.Js
