import OpenRupiv.Js.Calendar
import OpenRupiv.Js.Magnitude
import OpenRupiv.Runtime.States

/-!
# Guard predicates

The six operators of a guard on number, date and datetime fields, over every value that the driver
returns from such a column.
-/

namespace OpenRupiv.Runtime

open Js Spec

section Numbers

theorem numValue_finite (d : Decimal) :
    numValue (.finite d) = some (if d.neg then -magnitude d else magnitude d) := rfl

theorem numValue_eq_iff {n m : Num} (hn : n.isFinite = true) (hm : m.isFinite = true) :
    numValue n = numValue m ↔ n.unsigned = m.unsigned := by
  cases n with
  | infinite => exact absurd hn (by simp [Num.isFinite])
  | zero =>
    cases m with
    | infinite => exact absurd hm (by simp [Num.isFinite])
    | zero => simp [numValue, Num.unsigned]
    | finite e =>
      have hpos := magnitude_pos e
      rw [numValue_finite]
      simp only [numValue, Num.unsigned, Option.some.injEq, reduceCtorEq, iff_false]
      split <;> intro h <;> linarith
  | finite d =>
    have hd := magnitude_pos d
    cases m with
    | infinite => exact absurd hm (by simp [Num.isFinite])
    | zero =>
      rw [numValue_finite]
      simp only [numValue, Num.unsigned, Option.some.injEq, reduceCtorEq, iff_false]
      split <;> intro h <;> linarith
    | finite e =>
      have he := magnitude_pos e
      rw [numValue_finite, numValue_finite, Option.some.injEq]
      simp only [Num.unsigned, Num.finite.injEq]
      constructor
      · intro h
        obtain ⟨hneg, hmagnitude⟩ : d.neg = e.neg ∧ magnitude d = magnitude e := by
          cases hdneg : d.neg <;> cases heneg : e.neg <;>
            simp only [hdneg, heneg, if_true, if_false, Bool.false_eq_true, true_and, false_and,
              reduceCtorEq] at h ⊢ <;> linarith
        obtain ⟨hdigits, hpoint⟩ := magnitude_inj hmagnitude
        cases d
        cases e
        simp_all
      · rintro rfl
        rfl

end Numbers

/-- A value, not null, that the driver returns from a column of the type. -/
def Holds : FieldType → SqlValue → Prop
  | .number, .num n => n.isFinite = true
  | .date, .date _ | .datetime, .date _ => True
  | _, _ => False

/-- The value of a predicate that has a place in the order. -/
def comparable (host : Host) : Literal → Bool
  | .num n => n.isFinite
  | .str s => (host.dateParse (ofString s)).isSome
  | .bool _ => false

/-- What an operator asks of two comparable values. -/
def decides : PredicateOp → ℚ → ℚ → Bool
  | .eq, l, r => l = r
  | .ne, l, r => l ≠ r
  | op, l, r => compareOp op l r

/-- The operators of a predicate on a row, with the same value. -/
def evaluateAs (host : Host) (predicate : FieldPredicate) (field : FieldDef) (row : Row)
    (op : PredicateOp) : Bool :=
  evaluatePredicate host { predicate with op } field row

/-- Exactly one of `lt`, `eq` and `gt` holds, and the others go with them. -/
structure Consistent (host : Host) (predicate : FieldPredicate) (field : FieldDef) (row : Row) :
    Prop where
  one : ([PredicateOp.lt, .eq, .gt].filter (evaluateAs host predicate field row)).length = 1
  gte : evaluateAs host predicate field row .gte =
    (evaluateAs host predicate field row .gt || evaluateAs host predicate field row .eq)
  lte : evaluateAs host predicate field row .lte =
    (evaluateAs host predicate field row .lt || evaluateAs host predicate field row .eq)
  ne : evaluateAs host predicate field row .ne = !evaluateAs host predicate field row .eq

section Operators

variable {host : Host} {field : FieldDef} {raw : SqlValue} {value : Literal} {row : Row}
  {predicate : FieldPredicate}

/-- The values that are admitted for the type. -/
def Suits : FieldType → Literal → Prop
  | .number, .num _ | .date, .str _ | .datetime, .str _ => True
  | _, _ => False

theorem exists_toComparable (hraw : Holds field.type raw) :
    ∃ left, toComparable host raw field = some left := by
  unfold Holds at hraw
  split at hraw
  · rename_i n htype
    cases n with
    | infinite => exact absurd hraw (by simp [Num.isFinite])
    | zero => exact ⟨0, by simp [toComparable, htype, toNumber, numValue]⟩
    | finite d =>
      exact ⟨if d.neg then -magnitude d else magnitude d,
        by simp [toComparable, htype, toNumber, numValue_finite]⟩
  · rename_i ms htype
    exact ⟨ms, by simp [toComparable, htype]⟩
  · rename_i ms htype
    exact ⟨ms, by simp [toComparable, htype]⟩
  · exact hraw.elim

theorem isSome_toComparable (hvalue : Suits field.type value) :
    (toComparable host (Literal.toValue value) field).isSome = comparable host value := by
  unfold Suits at hvalue
  split at hvalue
  · rename_i n htype
    cases n <;> simp [toComparable, htype, Literal.toValue, toNumber, numValue, comparable,
      Num.isFinite]
  · rename_i s htype
    cases hdate : host.dateParse (ofString s) <;>
      simp [toComparable, htype, Literal.toValue, comparable, hdate]
  · rename_i s htype
    cases hdate : host.dateParse (ofString s) <;>
      simp [toComparable, htype, Literal.toValue, comparable, hdate]
  · exact hvalue.elim

/-- `looseEquals` and `toComparable` agree on what is equal. -/
theorem looseEquals_iff (hraw : Holds field.type raw) (hvalue : Suits field.type value) :
    looseEquals host raw value field = true ↔
      toComparable host (Literal.toValue value) field = toComparable host raw field := by
  unfold Suits at hvalue
  split at hvalue
  · rename_i m htype
    rw [htype] at hraw
    cases raw with
    | num n =>
      have hn : n.isFinite = true := hraw
      simp only [looseEquals, htype, toComparable, if_true, Literal.toValue, toNumber,
        Option.bind_some, Option.map_some, decide_eq_true_eq, Option.some.injEq]
      cases m with
      | infinite neg =>
        have hne : n.unsigned ≠ (Num.infinite neg).unsigned := by
          cases n <;> simp_all [Num.unsigned, Num.isFinite]
        have hsome : numValue n ≠ none := by
          cases n <;> simp_all [numValue, Num.isFinite]
        exact ⟨fun h => absurd h hne, fun h => absurd h.symm hsome⟩
      | zero neg => rw [eq_comm, ← numValue_eq_iff rfl hn]
      | finite d => rw [eq_comm, ← numValue_eq_iff rfl hn]
    | _ => exact hraw.elim
  · rename_i s htype
    obtain ⟨left, hleft⟩ : ∃ left, toComparable host raw field = some left :=
      exists_toComparable hraw
    simp [looseEquals, htype, hleft, eq_comm]
  · rename_i s htype
    obtain ⟨left, hleft⟩ : ∃ left, toComparable host raw field = some left :=
      exists_toComparable hraw
    simp [looseEquals, htype, hleft, eq_comm]
  · exact hvalue.elim

theorem evaluateAs_eq (hrow : row (columnFor field) = some raw) (hraw : Holds field.type raw)
    (hpredicate : predicate.value = some value) (hvalue : Suits field.type value) {left : ℚ}
    (hleft : toComparable host raw field = some left) {op : PredicateOp}
    (hop : op ≠ .set ∧ op ≠ .notSet) :
    evaluateAs host predicate field row op =
      match toComparable host (Literal.toValue value) field with
      | some right => decides op left right
      | none => op = .ne := by
  have hset : raw ≠ .null := by
    rintro rfl
    cases htype : field.type <;> simp [htype, Holds] at hraw
  have hequal : looseEquals host raw value field =
      Decidable.decide (toComparable host (Literal.toValue value) field = some left) := by
    rw [Bool.eq_iff_iff, looseEquals_iff hraw hvalue, hleft, decide_eq_true_eq]
  cases hright : toComparable host (Literal.toValue value) field with
  | none =>
    rw [hright] at hequal
    cases op <;> simp_all [evaluateAs, evaluatePredicate]
  | some right =>
    rw [hright] at hequal
    have hcomm : (right = left) = (left = right) := propext eq_comm
    cases op <;> simp_all [evaluateAs, evaluatePredicate, decides]

/-- The operators form an order exactly when the value of the predicate is comparable. -/
theorem consistent_iff (hrow : row (columnFor field) = some raw) (hraw : Holds field.type raw)
    (hpredicate : predicate.value = some value) (hvalue : Suits field.type value) :
    Consistent host predicate field row ↔ comparable host value = true := by
  obtain ⟨left, hleft⟩ : ∃ left, toComparable host raw field = some left :=
    exists_toComparable hraw
  have heval := fun (op : PredicateOp) (hop : op ≠ .set ∧ op ≠ .notSet) =>
    evaluateAs_eq hrow hraw hpredicate hvalue hleft hop
  have hlt := heval .lt (by decide)
  have hlte := heval .lte (by decide)
  have heq := heval .eq (by decide)
  have hne := heval .ne (by decide)
  have hgte := heval .gte (by decide)
  have hgt := heval .gt (by decide)
  rw [← isSome_toComparable hvalue]
  cases hright : toComparable host (Literal.toValue value) field with
  | none =>
    rw [hright] at hlt heq hgt
    simp only [Option.isSome_none, Bool.false_eq_true, iff_false]
    intro h
    have hone := h.one
    simp [hlt, heq, hgt] at hone
  | some right =>
    simp only [hright] at hlt hlte heq hne hgte hgt
    simp only [Option.isSome_some, iff_true]
    simp only [decides, compareOp] at hlt hlte heq hne hgte hgt
    rcases lt_trichotomy left right with hless | rfl | hless
    · have hle := hless.le
      constructor <;>
        simp [hlt, hlte, heq, hne, hgte, hgt, hless, hless.ne, hless.not_gt, hless.not_ge, hle]
    · constructor <;> simp [hlt, hlte, heq, hne, hgte, hgt]
    · have hle := hless.le
      constructor <;>
        simp [hlt, hlte, heq, hne, hgte, hgt, hless, hless.ne', hless.not_gt, hless.not_ge, hle]

theorem checked_predicate {spec : AppSpec} {workflow : WorkflowDef} {entity : EntityDef}
    {states : List String} (hbound : spec.BoundTo workflow entity states)
    {transition : TransitionDef} (ht : transition ∈ workflow.transitions)
    (hp : predicate ∈ (transition.guard.bind (·.require)).getD []) :
    ∃ path, checkPredicate entity path predicate = [] := by
  obtain ⟨before, after, htransitions⟩ := List.append_of_mem ht
  obtain ⟨path, hnil⟩ := hbound.checked before transition after htransitions
  simp only [AppSpec.checkTransition, List.append_eq_nil_iff] at hnil
  obtain ⟨pre, post, hrequire⟩ := List.append_of_mem hp
  exact ⟨_, entries_eq_nil_iff.mp hnil.1.2 pre predicate post hrequire⟩

/-- The check of a predicate on an ordered field looks at the type of its value. -/
theorem suits_of_checked {entity : EntityDef} {path : String}
    (hchecked : checkPredicate entity path predicate = [])
    (hfield : entity.fieldByName predicate.field = some field)
    (hordered : field.type.isOrdered = true) (hvalue : predicate.value = some value) :
    Suits field.type value := by
  unfold checkPredicate at hchecked
  simp only [hfield, hvalue] at hchecked
  split at hchecked
  · exact absurd hchecked (by simp)
  split at hchecked
  · exact absurd hchecked (by simp)
  split at hchecked
  · exact absurd hchecked (by simp)
  · cases htype : field.type <;> cases value <;>
      simp_all [Suits, checkPredicateValue, FieldType.isOrdered]

end Operators

/-- The operators of an accepted guard form an order on every value of its column exactly when the
value of the predicate is comparable: a finite number, or a text that `Date.parse` takes. -/
theorem guard_operators_consistent_iff {host : Host} {spec : AppSpec} (hvalid : spec.valid = true)
    {workflow : WorkflowDef} (hw : workflow ∈ spec.workflows.getD []) {transition : TransitionDef}
    (ht : transition ∈ workflow.transitions) {predicate : FieldPredicate}
    (hp : predicate ∈ (transition.guard.bind (·.require)).getD []) {entity : EntityDef}
    (he : spec.entityByName workflow.entity = some entity) {field : FieldDef}
    (hfield : entity.fieldByName predicate.field = some field)
    (hordered : field.type.isOrdered = true) {value : Literal}
    (hvalue : predicate.value = some value) {row : Row} {raw : SqlValue}
    (hrow : row (columnFor field) = some raw) (hraw : Holds field.type raw) :
    Consistent host predicate field row ↔ comparable host value = true := by
  obtain ⟨owner, states, hbound⟩ := AppSpec.boundTo_of_mem hvalid hw
  obtain rfl := Option.some.inj (hbound.found.symm.trans he)
  obtain ⟨path, hchecked⟩ := checked_predicate hbound ht hp
  exact consistent_iff hrow hraw hvalue (suits_of_checked hchecked hfield hordered hvalue)

def due : FieldDef := { name := "due", type := .date }

def invoice : EntityDef where
  name := "Invoice"
  fields :=
    [{ name := "status", type := .enum, values := some ["open", "reminded"] }, due]

def dueBefore (date : String) : FieldPredicate where
  field := "due"
  op := .lt
  value := some (.str date)

def remind (date : String) : TransitionDef where
  name := "remind"
  «from» := "open"
  «to» := "reminded"
  guard := some { require := some [dueBefore date] }

def reminders (date : String) : WorkflowDef where
  name := "reminders"
  entity := "Invoice"
  stateField := "status"
  initial := "open"
  transitions := [remind date]

def invoices (date : String) : AppSpec where
  specVersion := .v0_1
  app := { name := "Invoices", slug := "invoices", version := "1.0.0" }
  entities := [invoice]
  workflows := some [reminders date]

/-- A host that reads the first day of 2026, as UTC. -/
def newYearHost : Host where
  dateParse s := if s = ofString "2026-01-01" then some 1767225600000 else none
  toNumber _ := none

/-- An invoice that is due at an instant. -/
def dueAt (ms : Int) : Row := fun column => if column = "due" then some (.date ms) else none

theorem guard_operators_consistent_new_year :
    Consistent newYearHost (dueBefore "2026-01-01") due (dueAt 0) := by
  have hiff := @guard_operators_consistent_iff newYearHost (invoices "2026-01-01")
    (by decide) (reminders "2026-01-01") (by decide) (remind "2026-01-01") (by decide)
    (dueBefore "2026-01-01") (by decide) invoice (by decide) due (by decide +kernel) rfl
    (.str "2026-01-01") rfl (dueAt 0) (.date 0) (by decide) trivial
  exact hiff.mpr (by decide)

/-- An accepted guard that no invoice meets, whatever the order: `soon` is no date. -/
theorem guard_soon_never_met :
    (invoices "soon").valid = true ∧
      dueBefore "soon" ∈ ((remind "soon").guard.bind (·.require)).getD [] ∧
      (∀ op ∈ [PredicateOp.lt, .lte, .eq, .gte, .gt],
        evaluateAs newYearHost (dueBefore "soon") due (dueAt 0) op = false) ∧
      evaluateAs newYearHost (dueBefore "soon") due (dueAt 0) .ne = true ∧
      ¬Consistent newYearHost (dueBefore "soon") due (dueAt 0) := by
  have hnone : ∀ op ∈ [PredicateOp.lt, .lte, .eq, .gte, .gt],
      evaluateAs newYearHost (dueBefore "soon") due (dueAt 0) op = false := by decide
  refine ⟨by decide, by decide, hnone, by decide +kernel, ?_⟩
  intro h
  have hone := h.one
  simp [hnone] at hone

/-- A time zone, by the instants at which its days begin. -/
structure TimeZone where
  /-- `new Date(year, month, day)`, from the number of the day. -/
  midnight : Int → Int
  /-- Offsets are below a day. -/
  near : ∀ day, 86400000 * (day - 1) < midnight day ∧ midnight day < 86400000 * (day + 1)

/-- What the operators ask of two dates. -/
def decidesOrdering : PredicateOp → Ordering → Bool
  | .eq, o => o = .eq
  | .ne, o => o ≠ .eq
  | .lt, o => o = .lt
  | .lte, o => o ≠ .gt
  | .gt, o => o = .gt
  | .gte, o => o ≠ .lt
  | .set, _ | .notSet, _ => false

section Dates

variable {host : Host} {field : FieldDef} {predicate : FieldPredicate} {row : Row}
  (zone : TimeZone) (d v : CalendarDate)

/-- A date column comes as local midnight, and a predicate value as midnight in UTC: the operators
decide as the calendar does exactly when the dates differ or these midnights are the same. -/
theorem date_guards_compare_iff (htype : field.type = .date)
    (hpredicate : predicate.value = some (.str v.text))
    (hparse : host.dateParse (ofString v.text) = some v.utcMidnight)
    (hrow : row (columnFor field) = some (.date (zone.midnight d.dayNumber))) :
    (∀ op ∈ [PredicateOp.eq, .ne, .lt, .lte, .gt, .gte],
      evaluateAs host predicate field row op = decidesOrdering op (d.compare v)) ↔
      d ≠ v ∨ zone.midnight d.dayNumber = d.utcMidnight := by
  have hright : toComparable host (Literal.toValue (.str v.text)) field = some (v.utcMidnight : ℚ) := by
    simp [toComparable, htype, Literal.toValue, hparse]
  have hleft : toComparable host (.date (zone.midnight d.dayNumber)) field =
      some (zone.midnight d.dayNumber : ℚ) := by
    simp [toComparable, htype]
  have heval : ∀ op, op ≠ .set ∧ op ≠ .notSet → evaluateAs host predicate field row op =
      decides op (zone.midnight d.dayNumber : ℚ) (v.utcMidnight : ℚ) := by
    intro op hop
    have hvalue : Suits field.type (.str v.text) := by rw [htype]; trivial
    have hraw : Holds field.type (.date (zone.midnight d.dayNumber)) := by rw [htype]; trivial
    rw [evaluateAs_eq hrow hraw hpredicate hvalue hleft hop, hright]
  have hnear := zone.near d.dayNumber
  have hmidnight : v.utcMidnight = 86400000 * v.dayNumber := rfl
  rw [CalendarDate.compare_eq]
  rcases lt_trichotomy d.dayNumber v.dayNumber with hlt | heq | hgt
  · have hne : d ≠ v := by
      rintro rfl
      exact lt_irrefl _ hlt
    have hless : zone.midnight d.dayNumber < v.utcMidnight := by omega
    have hless' : (zone.midnight d.dayNumber : ℚ) < v.utcMidnight := by exact_mod_cast hless
    refine iff_of_true ?_ (.inl hne)
    rw [compare_lt_iff_lt.mpr hlt]
    simp [heval, decides, compareOp, decidesOrdering, hless', hless'.ne, hless'.le, hless'.not_gt,
      hless'.not_ge]
  · obtain rfl := CalendarDate.dayNumber_inj heq
    rw [compare_eq_iff_eq.mpr rfl]
    constructor
    · intro hall
      have hequal := hall .eq (by simp)
      rw [heval .eq (by simp)] at hequal
      have hcast : (zone.midnight d.dayNumber : ℚ) = d.utcMidnight := by
        simpa [decides, decidesOrdering] using hequal
      exact .inr (by exact_mod_cast hcast)
    · intro hcondition
      have hsame := hcondition.resolve_left (not_not.mpr rfl)
      rw [hsame] at heval
      simp [heval, decides, compareOp, decidesOrdering]
  · have hne : d ≠ v := by
      rintro rfl
      exact lt_irrefl _ hgt
    have hmore : v.utcMidnight < zone.midnight d.dayNumber := by omega
    have hmore' : (v.utcMidnight : ℚ) < zone.midnight d.dayNumber := by exact_mod_cast hmore
    refine iff_of_true ?_ (.inl hne)
    rw [compare_gt_iff_gt.mpr hgt]
    simp [heval, decides, compareOp, decidesOrdering, hmore', hmore'.ne', hmore'.le, hmore'.not_gt,
      hmore'.not_ge]

end Dates

def newYear2026 : CalendarDate where
  year := 2026
  month := 1
  day := 1
  month_mem := by decide
  day_mem := by decide

def newYearsEve : CalendarDate where
  year := 2025
  month := 12
  day := 31
  month_mem := by decide
  day_mem := by decide

/-- Two hours ahead of UTC. -/
def eastern : TimeZone where
  midnight day := 86400000 * day - 7200000
  near day := by omega

/-- On another day the time zone makes no difference. -/
theorem date_guards_compare_new_years_eve :
    newYearsEve ≠ newYear2026 ∧ ∀ op ∈ [PredicateOp.eq, .ne, .lt, .lte, .gt, .gte],
      evaluateAs newYearHost (dueBefore "2026-01-01") due
          (dueAt (eastern.midnight newYearsEve.dayNumber)) op =
        decidesOrdering op (newYearsEve.compare newYear2026) := by
  have hne : newYearsEve ≠ newYear2026 := by decide
  exact ⟨hne, (date_guards_compare_iff eastern newYearsEve newYear2026 rfl (by decide)
    (by decide) (by decide)).mpr (.inl hne)⟩

/-- Two hours ahead of UTC an invoice that is due on the day counts as due before it. -/
theorem date_guard_off_by_a_day :
    newYear2026.text = "2026-01-01" ∧
      evaluateAs newYearHost (dueBefore "2026-01-01") due
        (dueAt (eastern.midnight newYear2026.dayNumber)) .lt = true ∧
      ¬∀ op ∈ [PredicateOp.eq, .ne, .lt, .lte, .gt, .gte],
        evaluateAs newYearHost (dueBefore "2026-01-01") due
            (dueAt (eastern.midnight newYear2026.dayNumber)) op =
          decidesOrdering op (newYear2026.compare newYear2026) := by
  refine ⟨by decide, by decide +kernel, ?_⟩
  intro h
  exact absurd (h .lt (by decide)) (by decide)

end OpenRupiv.Runtime
