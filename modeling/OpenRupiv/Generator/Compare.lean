import OpenRupiv.Runtime.Records
import OpenRupiv.Js.Print
import OpenRupiv.Spec.Facts

/-!
# Comparison of specs

`packages/generator/src/compare.ts`: the differences between an expected and a generated spec.  What
two specs have to share to be reported as equivalent is `AgreeCompared`; what the comparison never
looks at, and does not list as free either, is `AgreeUncompared`.
-/

namespace OpenRupiv.Generator

open Js Spec OpenRupiv.Runtime

variable {α : Type}

structure SpecDiff where
  /-- A path of names, such as `/entities/Vendor/fields/riskTier/type`. -/
  path : String
  message : Text
  deriving DecidableEq

def compareNamed (name : α → String) (expected actual : List α) (basePath kind : String)
    (compareItem : α → α → String → List SpecDiff) : List SpecDiff :=
  let expectedByName := newMap (expected.map fun item => (name item, item))
  let actualByName := newMap (actual.map fun item => (name item, item))
  (expectedByName.flatMap fun e =>
    match actualByName.lookup e.1 with
    | none => [⟨basePath ++ "/" ++ e.1, ofString ("missing " ++ kind ++ " ") ++ quoted e.1⟩]
    | some actualItem => compareItem e.2 actualItem (basePath ++ "/" ++ e.1)) ++
  actualByName.flatMap fun e =>
    if (expectedByName.lookup e.1).isNone then
      [⟨basePath ++ "/" ++ e.1, ofString ("unexpected " ++ kind ++ " ") ++ quoted e.1⟩]
    else []

def compareSets (expected actual : List Text) (path kind : String) : List SpecDiff :=
  (expected.eraseDups.flatMap fun value =>
    if value ∈ actual then []
    else [⟨path, ofString ("missing " ++ kind ++ " ") ++ jsonText value⟩]) ++
  actual.eraseDups.flatMap fun value =>
    if value ∈ expected then []
    else [⟨path, ofString ("unexpected " ++ kind ++ " ") ++ jsonText value⟩]

/-- `print` is `JSON.stringify` at the type of the values. -/
def compareScalar [DecidableEq α] (print : α → Text) (expected actual : α) (path label : String) :
    List SpecDiff :=
  if expected ≠ actual then
    [⟨path, ofString (label ++ " is ") ++ print actual ++ ofString ", expected " ++ print expected⟩]
  else []

def printOptional (value : Option String) : Text := value.elim (ofString "undefined") quoted

/-- `JSON.stringify(count)`. -/
def printCount (count : Nat) : Text := (Num.ofDouble count).print

def compareField (expected actual : FieldDef) (path : String) : List SpecDiff :=
  compareScalar (fun type : FieldType => quoted type.print) expected.type actual.type
    (path ++ "/type") "field type" ++
  if expected.type ≠ actual.type then []
  else
    (if expected.type = .enum then
      compareSets ((expected.values.getD []).map ofString) ((actual.values.getD []).map ofString)
        (path ++ "/values") "enum value"
    else []) ++
    if expected.type = .reference then
      compareScalar printOptional expected.entity actual.entity (path ++ "/entity")
        "reference target"
    else []

/-- The kind is `manyToMany` in every relation. -/
def compareRelation (expected actual : RelationDef) (path : String) : List SpecDiff :=
  compareScalar quoted expected.to actual.to (path ++ "/to") "relation target"

def compareEntity (expected actual : EntityDef) (path : String) : List SpecDiff :=
  compareNamed FieldDef.name expected.fields actual.fields (path ++ "/fields") "field"
    compareField ++
  compareNamed RelationDef.name (expected.relations.getD []) (actual.relations.getD [])
    (path ++ "/relations") "relation" compareRelation

def comparePage (expected actual : PageDef) (path : String) : List SpecDiff :=
  compareScalar (fun type : PageType => quoted type.print) expected.type actual.type
    (path ++ "/type") "page type" ++
  compareScalar quoted expected.entity actual.entity (path ++ "/entity") "page entity"

def literalScalar : Literal → Scalar
  | .str s => .str (ofString s)
  | .num n => .num n
  | .bool b => .bool b

def canonicalPredicate (predicate : FieldPredicate) : Text :=
  stringifyText (.arr [.scalar (.str (ofString predicate.field)),
    .scalar (.str (ofString predicate.op.text)),
    .scalar (predicate.value.elim .null literalScalar)])

def compareApproval (expected actual : Option ApprovalRule) (path : String) : List SpecDiff :=
  match expected, actual with
  | some _, none => [⟨path ++ "/approval", ofString "missing approval rule"⟩]
  | none, some _ => [⟨path ++ "/approval", ofString "unexpected approval rule"⟩]
  | some expected, some actual =>
      compareScalar printCount expected.count actual.count (path ++ "/approval/count")
        "approval count" ++
      compareSets ((expected.roles.getD []).map ofString) ((actual.roles.getD []).map ofString)
        (path ++ "/approval/roles") "approval role"
  | none, none => []

/-- `guard?.roles ?? []`. -/
def guardRoles (transition : TransitionDef) : List String :=
  (transition.guard.bind (·.roles)).getD []

/-- `guard?.require ?? []`. -/
def guardRequire (transition : TransitionDef) : List FieldPredicate :=
  (transition.guard.bind (·.require)).getD []

def compareTransition (expected actual : TransitionDef) (path : String) : List SpecDiff :=
  compareScalar quoted expected.from actual.from (path ++ "/from") "from state" ++
  compareScalar quoted expected.to actual.to (path ++ "/to") "to state" ++
  compareSets ((guardRoles expected).map ofString) ((guardRoles actual).map ofString)
    (path ++ "/guard/roles") "guard role" ++
  compareSets ((guardRequire expected).map canonicalPredicate)
    ((guardRequire actual).map canonicalPredicate) (path ++ "/guard/require") "guard predicate" ++
  compareApproval expected.approval actual.approval path

def compareWorkflow (expected actual : WorkflowDef) (path : String) : List SpecDiff :=
  compareScalar quoted expected.entity actual.entity (path ++ "/entity") "workflow entity" ++
  compareScalar quoted expected.stateField actual.stateField (path ++ "/stateField") "state field" ++
  compareScalar quoted expected.initial actual.initial (path ++ "/initial") "initial state" ++
  compareNamed TransitionDef.name expected.transitions actual.transitions (path ++ "/transitions")
    "transition" compareTransition

def compareSpecs (expected actual : AppSpec) : List SpecDiff :=
  compareSets ((expected.app.roles.getD []).map ofString) ((actual.app.roles.getD []).map ofString)
    "/app/roles" "role" ++
  compareNamed EntityDef.name expected.entities actual.entities "/entities" "entity"
    compareEntity ++
  compareNamed PageDef.name (expected.pages.getD []) (actual.pages.getD []) "/pages" "page"
    comparePage ++
  compareNamed WorkflowDef.name (expected.workflows.getD []) (actual.workflows.getD []) "/workflows"
    "workflow" compareWorkflow

/-- The same members, in any order and number. -/
def SameSet (xs ys : List α) : Prop := ∀ x, x ∈ xs ↔ x ∈ ys

/-- Each item of either list has a partner of its name in the other that it agrees with. -/
def AgreeNamed (name : α → String) (agree : α → α → Prop) (xs ys : List α) : Prop :=
  (∀ x ∈ xs, ∃ y ∈ ys, name y = name x ∧ agree x y) ∧
    ∀ y ∈ ys, ∃ x ∈ xs, name x = name y ∧ agree x y

/-- The field with the values and the target of its type. -/
structure AgreeField (x y : FieldDef) : Prop where
  type : x.type = y.type
  values : SameSet (x.values.getD []) (y.values.getD [])
  entity : x.entity = y.entity

structure AgreeEntity (x y : EntityDef) : Prop where
  fields : AgreeNamed FieldDef.name AgreeField x.fields y.fields
  relations : AgreeNamed RelationDef.name (fun r s => r.to = s.to) (x.relations.getD [])
    (y.relations.getD [])

structure AgreePage (x y : PageDef) : Prop where
  type : x.type = y.type
  entity : x.entity = y.entity

/-- The value that a predicate compares with: `-0` is the number `0`. -/
def unsignedValue : Literal → Literal
  | .num n => .num n.unsigned
  | value => value

def unsignedPredicate (predicate : FieldPredicate) : FieldPredicate :=
  { predicate with value := predicate.value.map unsignedValue }

inductive AgreeApproval : Option ApprovalRule → Option ApprovalRule → Prop where
  | none : AgreeApproval none none
  | some {x y : ApprovalRule} (count : x.count = y.count)
      (roles : SameSet (x.roles.getD []) (y.roles.getD [])) : AgreeApproval (some x) (some y)

structure AgreeTransition (x y : TransitionDef) : Prop where
  «from» : x.from = y.from
  «to» : x.to = y.to
  roles : SameSet (guardRoles x) (guardRoles y)
  require : SameSet ((guardRequire x).map unsignedPredicate)
    ((guardRequire y).map unsignedPredicate)
  approval : AgreeApproval x.approval y.approval

structure AgreeWorkflow (x y : WorkflowDef) : Prop where
  entity : x.entity = y.entity
  stateField : x.stateField = y.stateField
  initial : x.initial = y.initial
  transitions : AgreeNamed TransitionDef.name AgreeTransition x.transitions y.transitions

structure AgreeAgent (x y : AgentTaskDef) : Prop where
  tools : SameSet (x.tools.getD []) (y.tools.getD [])
  proposes : SameSet (x.proposes.getD []) (y.proposes.getD [])

/-- The parts that `compareSpecs` looks at. -/
structure AgreeCompared (x y : AppSpec) : Prop where
  roles : SameSet (x.app.roles.getD []) (y.app.roles.getD [])
  entities : AgreeNamed EntityDef.name AgreeEntity x.entities y.entities
  pages : AgreeNamed PageDef.name AgreePage (x.pages.getD []) (y.pages.getD [])
  workflows : AgreeNamed WorkflowDef.name AgreeWorkflow (x.workflows.getD []) (y.workflows.getD [])

/-- The parts that `compareSpecs` does not look at and that are not listed as free. -/
structure AgreeUncompared (x y : AppSpec) : Prop where
  specVersion : x.specVersion = y.specVersion
  policies : SameSet (x.policies.getD []) (y.policies.getD [])
  agents : AgreeNamed AgentTaskDef.name AgreeAgent (x.agents.getD []) (y.agents.getD [])
  evidence : SameSet (x.evidence.getD []) (y.evidence.getD [])

theorem compareScalar_eq_nil_iff [DecidableEq α] {print : α → Text} {expected actual : α}
    {path label : String} : compareScalar print expected actual path label = [] ↔
      expected = actual := by
  simp [compareScalar]

theorem compareSets_eq_nil_iff {expected actual : List Text} {path kind : String} :
    compareSets expected actual path kind = [] ↔ SameSet expected actual := by
  simp only [compareSets, List.append_eq_nil_iff, List.flatMap_eq_nil_iff, List.mem_eraseDups,
    ite_eq_left_iff, List.cons_ne_nil, imp_false, not_not]
  constructor
  · intro h value
    exact ⟨h.1 value, h.2 value⟩
  · intro h
    exact ⟨fun value => (h value).mp, fun value => (h value).mpr⟩

theorem sameSet_map_iff {β : Type} {f : α → β} {xs ys : List α} :
    SameSet (xs.map f) (ys.map f) ↔
      (∀ x ∈ xs, ∃ y ∈ ys, f y = f x) ∧ ∀ y ∈ ys, ∃ x ∈ xs, f x = f y := by
  constructor
  · intro h
    constructor
    · intro x hx
      exact List.mem_map.mp ((h (f x)).mp (List.mem_map_of_mem hx))
    · intro y hy
      exact List.mem_map.mp ((h (f y)).mpr (List.mem_map_of_mem hy))
  · rintro ⟨hxs, hys⟩ z
    constructor
    · intro hz
      obtain ⟨x, hx, rfl⟩ := List.mem_map.mp hz
      exact List.mem_map.mpr (hxs x hx)
    · intro hz
      obtain ⟨y, hy, rfl⟩ := List.mem_map.mp hz
      exact List.mem_map.mpr (hys y hy)

theorem sameSet_map_map_iff {β γ : Type} {f : α → β} {g : α → γ} {xs ys : List α}
    (h : ∀ x ∈ xs ++ ys, ∀ y ∈ xs ++ ys, f x = f y ↔ g x = g y) :
    SameSet (xs.map f) (ys.map f) ↔ SameSet (xs.map g) (ys.map g) := by
  rw [sameSet_map_iff, sameSet_map_iff]
  constructor
  · rintro ⟨hxs, hys⟩
    constructor
    · intro x hx
      obtain ⟨y, hy, heq⟩ := hxs x hx
      exact ⟨y, hy, (h y (List.mem_append_right _ hy) x (List.mem_append_left _ hx)).mp heq⟩
    · intro y hy
      obtain ⟨x, hx, heq⟩ := hys y hy
      exact ⟨x, hx, (h x (List.mem_append_left _ hx) y (List.mem_append_right _ hy)).mp heq⟩
  · rintro ⟨hxs, hys⟩
    constructor
    · intro x hx
      obtain ⟨y, hy, heq⟩ := hxs x hx
      exact ⟨y, hy, (h y (List.mem_append_right _ hy) x (List.mem_append_left _ hx)).mpr heq⟩
    · intro y hy
      obtain ⟨x, hx, heq⟩ := hys y hy
      exact ⟨x, hx, (h x (List.mem_append_left _ hx) y (List.mem_append_right _ hy)).mpr heq⟩

theorem compareNames_eq_nil_iff {expected actual : List String} {path kind : String} :
    compareSets (expected.map ofString) (actual.map ofString) path kind = [] ↔
      SameSet expected actual := by
  have hsame := @sameSet_map_map_iff _ _ _ ofString id expected actual
  rw [List.map_id, List.map_id] at hsame
  rw [compareSets_eq_nil_iff, hsame]
  intro x _ y _
  exact ofString_inj

/-- A map of things with distinct names holds each of them under its name. -/
theorem lookup_newMap_eq_some_iff {name : α → String} {xs : List α} (hnd : (xs.map name).Nodup)
    {k : String} {x : α} :
    (newMap (xs.map fun x => (name x, x))).lookup k = some x ↔ x ∈ xs ∧ name x = k := by
  constructor
  · intro h
    exact (lookup_newMap_named h).symm
  · rintro ⟨hx, rfl⟩
    cases hl : (newMap (xs.map fun x => (name x, x))).lookup (name x) with
    | none =>
      rw [lookup_newMap, List.lookup_eq_none_iff] at hl
      have hne := hl (name x, x) (by simpa using hx)
      simp at hne
    | some y =>
      obtain ⟨hname, hy⟩ := lookup_newMap_named hl
      rw [List.inj_on_of_nodup_map hnd hy hx hname]

theorem compareNamed_eq_nil_iff {name : α → String} {agree : α → α → Prop}
    {compareItem : α → α → String → List SpecDiff} {xs ys : List α} {basePath kind : String}
    (hxs : (xs.map name).Nodup) (hys : (ys.map name).Nodup)
    (hitem : ∀ x ∈ xs, ∀ y ∈ ys, ∀ path, compareItem x y path = [] ↔ agree x y) :
    compareNamed name xs ys basePath kind compareItem = [] ↔ AgreeNamed name agree xs ys := by
  have hmap : ∀ {zs : List α}, (zs.map name).Nodup →
      newMap (zs.map fun item => (name item, item)) = zs.map fun item => (name item, item) := by
    intro zs hzs
    apply newMap_of_nodup
    rwa [List.map_map]
  simp only [compareNamed, List.append_eq_nil_iff, List.flatMap_eq_nil_iff]
  constructor
  · intro h
    have hfirst : ∀ x ∈ xs, ∃ y ∈ ys, name y = name x ∧ agree x y := by
      intro x hx
      have hnil := h.1 (name x, x) (by rw [hmap hxs]; exact List.mem_map_of_mem hx)
      cases hl : (newMap (ys.map fun item => (name item, item))).lookup (name x) with
      | none => simp [hl] at hnil
      | some y =>
        obtain ⟨hy, hname⟩ := (lookup_newMap_eq_some_iff hys).mp hl
        rw [hl] at hnil
        exact ⟨y, hy, hname, (hitem x hx y hy _).mp hnil⟩
    refine ⟨hfirst, ?_⟩
    intro y hy
    have hnil := h.2 (name y, y) (by rw [hmap hys]; exact List.mem_map_of_mem hy)
    cases hl : (newMap (xs.map fun item => (name item, item))).lookup (name y) with
    | none => simp [hl] at hnil
    | some x =>
      -- the partner of that item bears the name of `y`, and names are distinct
      obtain ⟨hx, hname⟩ := (lookup_newMap_eq_some_iff hxs).mp hl
      obtain ⟨z, hz, hzname, hagree⟩ := hfirst x hx
      obtain rfl := List.inj_on_of_nodup_map hys hz hy (hzname.trans hname)
      exact ⟨x, hx, hname, hagree⟩
  · intro h
    constructor
    · intro e he
      rw [hmap hxs] at he
      obtain ⟨x, hx, rfl⟩ := List.mem_map.mp he
      obtain ⟨y, hy, hname, hagree⟩ := h.1 x hx
      rw [(lookup_newMap_eq_some_iff hys).mpr ⟨hy, hname⟩]
      exact (hitem x hx y hy _).mpr hagree
    · intro e he
      rw [hmap hys] at he
      obtain ⟨y, hy, rfl⟩ := List.mem_map.mp he
      obtain ⟨x, hx, hname, -⟩ := h.2 y hy
      rw [(lookup_newMap_eq_some_iff hxs).mpr ⟨hx, hname⟩]
      rfl

private theorem printed_literalScalar {value : Literal} (h : value.conforms = true) :
    (literalScalar value).printed = literalScalar (unsignedValue value) := by
  cases value with
  | num n =>
    cases n with
    | infinite neg => exact absurd h (by simp [Literal.conforms, Num.isFinite])
    | _ => rfl
  | _ => rfl

private theorem literalScalar_injective : Function.Injective literalScalar := by
  intro v w h
  cases v <;> cases w <;> simp_all [literalScalar]

private theorem literalScalar_ne_null (value : Literal) : literalScalar value ≠ .null := by
  cases value <;> simp [literalScalar]

theorem PredicateOp.text_injective : Function.Injective PredicateOp.text := by
  intro p q h
  cases p <;> cases q <;> first | rfl | exact absurd h (by decide)

private theorem printed_value {predicate : FieldPredicate} (h : predicate.conforms = true) :
    (predicate.value.elim Scalar.null literalScalar).printed =
      (unsignedPredicate predicate).value.elim Scalar.null literalScalar := by
  rw [FieldPredicate.conforms, Bool.and_eq_true] at h
  cases hv : predicate.value with
  | none => simp [unsignedPredicate, hv, Scalar.printed]
  | some value =>
    rw [hv, Option.all_some] at h
    simpa [unsignedPredicate, hv] using printed_literalScalar h.2

theorem canonicalPredicate_eq_iff {p q : FieldPredicate} (hp : p.conforms = true)
    (hq : q.conforms = true) :
    canonicalPredicate p = canonicalPredicate q ↔ unsignedPredicate p = unsignedPredicate q := by
  have hvalue : ∀ v w : Option Literal, v.elim Scalar.null literalScalar =
      w.elim Scalar.null literalScalar → v = w := by
    intro v w h
    cases v with
    | none =>
      cases w with
      | none => rfl
      | some b => exact absurd h.symm (literalScalar_ne_null b)
    | some a =>
      cases w with
      | none => exact absurd h (literalScalar_ne_null a)
      | some b => rw [literalScalar_injective h]
  constructor
  · intro h
    have hlist := ofString_injective h
    have hprint := stringify_injective (by simp) (by simp) (String.ofList_injective hlist)
    simp only [Json.rebuild_arr, Json.rebuild_scalar, List.map_cons, List.map_nil, Json.arr.injEq,
      List.cons.injEq, Json.scalar.injEq, Scalar.printed_str, Scalar.str.injEq, ofString_inj,
      and_true, printed_value hp, printed_value hq] at hprint
    obtain ⟨hfield, hop, hlast⟩ := hprint
    have hunsigned := hvalue _ _ hlast
    simp only [unsignedPredicate, FieldPredicate.mk.injEq]
    exact ⟨hfield, PredicateOp.text_injective hop, hunsigned⟩
  · intro h
    obtain ⟨hfield, hop, -⟩ := FieldPredicate.mk.inj h
    unfold canonicalPredicate stringifyText
    congr 2
    apply stringify_congr
    simp only [Json.rebuild_arr, Json.rebuild_scalar, List.map_cons, List.map_nil, printed_value hp,
      printed_value hq, h, hfield, hop]

theorem comparePredicates_eq_nil_iff {xs ys : List FieldPredicate} {path kind : String}
    (hxs : ∀ p ∈ xs, p.conforms = true) (hys : ∀ p ∈ ys, p.conforms = true) :
    compareSets (xs.map canonicalPredicate) (ys.map canonicalPredicate) path kind = [] ↔
      SameSet (xs.map unsignedPredicate) (ys.map unsignedPredicate) := by
  rw [compareSets_eq_nil_iff, sameSet_map_map_iff]
  intro p hp q hq
  apply canonicalPredicate_eq_iff
  · rcases List.mem_append.mp hp with hp | hp
    · exact hxs p hp
    · exact hys p hp
  · rcases List.mem_append.mp hq with hq | hq
    · exact hxs q hq
    · exact hys q hq

theorem compareApproval_eq_nil_iff {x y : Option ApprovalRule} {path : String} :
    compareApproval x y path = [] ↔ AgreeApproval x y := by
  cases x with
  | none =>
    cases y with
    | none => exact ⟨fun _ => .none, fun _ => rfl⟩
    | some b => exact ⟨nofun, nofun⟩
  | some a =>
    cases y with
    | none => exact ⟨nofun, nofun⟩
    | some b =>
      rw [compareApproval, List.append_eq_nil_iff, compareScalar_eq_nil_iff, compareNames_eq_nil_iff]
      constructor
      · rintro ⟨hcount, hroles⟩
        exact .some hcount hroles
      · intro h
        cases h with
        | some hcount hroles => exact ⟨hcount, hroles⟩

theorem compareTransition_eq_nil_iff {x y : TransitionDef} {path : String}
    (hx : ∀ p ∈ guardRequire x, p.conforms = true) (hy : ∀ p ∈ guardRequire y, p.conforms = true) :
    compareTransition x y path = [] ↔ AgreeTransition x y := by
  simp only [compareTransition, List.append_eq_nil_iff, compareScalar_eq_nil_iff,
    compareNames_eq_nil_iff, comparePredicates_eq_nil_iff hx hy, compareApproval_eq_nil_iff]
  constructor
  · rintro ⟨⟨⟨⟨hfrom, hto⟩, hroles⟩, hrequire⟩, happroval⟩
    exact ⟨hfrom, hto, hroles, hrequire, happroval⟩
  · intro h
    exact ⟨⟨⟨⟨h.from, h.to⟩, h.roles⟩, h.require⟩, h.approval⟩

/-- The values of an enum and the target of a reference are all there is to a type. -/
theorem compareField_eq_nil_iff {x y : FieldDef} {path : String}
    (hvalues : ∀ f ∈ [x, y], f.type ≠ .enum → f.values = none)
    (htarget : ∀ f ∈ [x, y], f.type ≠ .reference → f.entity = none) :
    compareField x y path = [] ↔ AgreeField x y := by
  have hx : x ∈ [x, y] := by simp
  have hy : y ∈ [x, y] := by simp
  by_cases htype : x.type = y.type
  · simp only [compareField, htype, compareScalar, ne_eq, not_true, if_false, List.nil_append,
      List.append_eq_nil_iff]
    constructor
    · rintro ⟨hset, hentity⟩
      refine ⟨htype, ?_, ?_⟩
      · by_cases henum : y.type = .enum
        · rw [if_pos henum, compareNames_eq_nil_iff] at hset
          exact hset
        · rw [hvalues x hx (by rwa [htype]), hvalues y hy henum]
          exact fun _ => Iff.rfl
      · by_cases href : y.type = .reference
        · simpa [href] using hentity
        · rw [htarget x hx (by rwa [htype]), htarget y hy href]
    · intro h
      constructor
      · split
        · exact compareNames_eq_nil_iff.mpr h.values
        · rfl
      · simp [h.entity]
  · constructor
    · intro h
      simp [compareField, compareScalar, htype] at h
    · intro h
      exact absurd h.type htype

theorem comparePage_eq_nil_iff {x y : PageDef} {path : String} :
    comparePage x y path = [] ↔ AgreePage x y := by
  rw [comparePage, List.append_eq_nil_iff, compareScalar_eq_nil_iff, compareScalar_eq_nil_iff]
  exact ⟨fun h => ⟨h.1, h.2⟩, fun h => ⟨h.type, h.entity⟩⟩

section Valid

variable {expected actual : AppSpec} (hexpected : expected.valid = true)
  (hactual : actual.valid = true)

include hexpected hactual

theorem compareEntity_eq_nil_iff {x y : EntityDef} (hx : x ∈ expected.entities)
    (hy : y ∈ actual.entities) (path : String) :
    compareEntity x y path = [] ↔ AgreeEntity x y := by
  have hfields : ∀ f ∈ x.fields, ∀ g ∈ y.fields, ∀ path,
      compareField f g path = [] ↔ AgreeField f g := by
    intro f hf g hg path
    apply compareField_eq_nil_iff
    · intro field hfield hne
      rcases List.mem_pair.mp hfield with rfl | rfl
      · exact AppSpec.values_eq_none hexpected hx hf hne
      · exact AppSpec.values_eq_none hactual hy hg hne
    · intro field hfield hne
      rcases List.mem_pair.mp hfield with rfl | rfl
      · exact AppSpec.target_eq_none hexpected hx hf hne
      · exact AppSpec.target_eq_none hactual hy hg hne
  have hrelations : ∀ r ∈ x.relations.getD [], ∀ s ∈ y.relations.getD [], ∀ path,
      compareRelation r s path = [] ↔ r.to = s.to := by
    intro r _ s _ path
    exact compareScalar_eq_nil_iff
  rw [compareEntity, List.append_eq_nil_iff,
    compareNamed_eq_nil_iff (AppSpec.nodup_fieldNames hexpected hx)
      (AppSpec.nodup_fieldNames hactual hy) hfields,
    compareNamed_eq_nil_iff (AppSpec.nodup_relationNames hexpected hx)
      (AppSpec.nodup_relationNames hactual hy) hrelations]
  exact ⟨fun h => ⟨h.1, h.2⟩, fun h => ⟨h.fields, h.relations⟩⟩

theorem compareWorkflow_eq_nil_iff {x y : WorkflowDef} (hx : x ∈ expected.workflows.getD [])
    (hy : y ∈ actual.workflows.getD []) (path : String) :
    compareWorkflow x y path = [] ↔ AgreeWorkflow x y := by
  obtain ⟨_, _, hxbound⟩ := AppSpec.boundTo_of_mem hexpected hx
  obtain ⟨_, _, hybound⟩ := AppSpec.boundTo_of_mem hactual hy
  have htransitions : ∀ t ∈ x.transitions, ∀ u ∈ y.transitions, ∀ path,
      compareTransition t u path = [] ↔ AgreeTransition t u := by
    intro t ht u hu path
    apply compareTransition_eq_nil_iff
    · intro p hp
      exact AppSpec.predicate_conforms hexpected hx ht hp
    · intro p hp
      exact AppSpec.predicate_conforms hactual hy hu hp
  simp only [compareWorkflow, List.append_eq_nil_iff, compareScalar_eq_nil_iff,
    compareNamed_eq_nil_iff hxbound.nodup_transitionNames hybound.nodup_transitionNames htransitions]
  constructor
  · rintro ⟨⟨⟨hentity, hstate⟩, hinitial⟩, hnamed⟩
    exact ⟨hentity, hstate, hinitial, hnamed⟩
  · intro h
    exact ⟨⟨⟨h.entity, h.stateField⟩, h.initial⟩, h.transitions⟩

/-- No difference is found exactly between specs that agree on the compared parts. -/
theorem compareSpecs_eq_nil_iff :
    compareSpecs expected actual = [] ↔ AgreeCompared expected actual := by
  have hentities : ∀ x ∈ expected.entities, ∀ y ∈ actual.entities, ∀ path,
      compareEntity x y path = [] ↔ AgreeEntity x y := by
    intro x hx y hy path
    exact compareEntity_eq_nil_iff hexpected hactual hx hy path
  have hpages : ∀ x ∈ expected.pages.getD [], ∀ y ∈ actual.pages.getD [], ∀ path,
      comparePage x y path = [] ↔ AgreePage x y := by
    intro x _ y _ path
    exact comparePage_eq_nil_iff
  have hworkflows : ∀ x ∈ expected.workflows.getD [], ∀ y ∈ actual.workflows.getD [], ∀ path,
      compareWorkflow x y path = [] ↔ AgreeWorkflow x y := by
    intro x hx y hy path
    exact compareWorkflow_eq_nil_iff hexpected hactual hx hy path
  simp only [compareSpecs, List.append_eq_nil_iff, compareNames_eq_nil_iff,
    compareNamed_eq_nil_iff (AppSpec.nodup_entityNames hexpected)
      (AppSpec.nodup_entityNames hactual) hentities,
    compareNamed_eq_nil_iff (AppSpec.nodup_pageNames hexpected)
      (AppSpec.nodup_pageNames hactual) hpages,
    compareNamed_eq_nil_iff (AppSpec.nodup_workflowNames hexpected)
      (AppSpec.nodup_workflowNames hactual) hworkflows]
  constructor
  · rintro ⟨⟨⟨hroles, hentity⟩, hpage⟩, hworkflow⟩
    exact ⟨hroles, hentity, hpage, hworkflow⟩
  · intro h
    exact ⟨⟨⟨h.roles, h.entities⟩, h.pages⟩, h.workflows⟩

/-- A spec without differences is the expected one, up to the free parts, exactly when nothing that
is not compared differs. -/
theorem no_difference_agrees_iff :
    (compareSpecs expected actual = [] →
      AgreeCompared expected actual ∧ AgreeUncompared expected actual) ↔
    (AgreeCompared expected actual → AgreeUncompared expected actual) := by
  rw [compareSpecs_eq_nil_iff hexpected hactual]
  constructor
  · intro h hcompared
    exact (h hcompared).2
  · intro h hcompared
    exact ⟨hcompared, h hcompared⟩

end Valid

/-- Contracts that an agent reads with these tools. -/
def contracts (tools : List String) : AppSpec where
  specVersion := .v0_2
  app := { name := "Contracts", slug := "contracts", version := "1.0.0" }
  entities := [{ name := "Contract", fields := [{ name := "title", type := .string }] }]
  agents := some [{ name := "reader", tools := some tools }]

/-- An agent that may also pay is reported as equivalent to one that only reads. -/
theorem no_difference_in_tools :
    (contracts ["read-contract"]).valid = true ∧
      (contracts ["read-contract", "pay-invoice"]).valid = true ∧
      compareSpecs (contracts ["read-contract"]) (contracts ["read-contract", "pay-invoice"]) = [] ∧
      ¬AgreeUncompared (contracts ["read-contract"]) (contracts ["read-contract", "pay-invoice"]) := by
  refine ⟨by decide +kernel, by decide +kernel, by decide +kernel, ?_⟩
  intro h
  obtain ⟨agent, hmem, -, hagree⟩ := h.agents.2 _ (List.mem_singleton_self _)
  obtain rfl := List.mem_singleton.mp hmem
  have htools := (hagree.tools "pay-invoice").mpr (by decide)
  exact absurd htools (by decide)

theorem no_difference_agrees_contracts :
    compareSpecs (contracts ["read-contract"]) (contracts ["read-contract"]) = [] ∧
      AgreeCompared (contracts ["read-contract"]) (contracts ["read-contract"]) ∧
        AgreeUncompared (contracts ["read-contract"]) (contracts ["read-contract"]) := by
  have hvalid : (contracts ["read-contract"]).valid = true := by decide +kernel
  have hsame : ∀ {α : Type} (xs : List α), SameSet xs xs := fun xs x => Iff.rfl
  have huncompared : AgreeUncompared (contracts ["read-contract"]) (contracts ["read-contract"]) := by
    refine ⟨rfl, hsame _, ⟨?_, ?_⟩, hsame _⟩
    · intro agent hagent
      exact ⟨agent, hagent, rfl, ⟨hsame _, hsame _⟩⟩
    · intro agent hagent
      exact ⟨agent, hagent, rfl, ⟨hsame _, hsame _⟩⟩
  have hnone : compareSpecs (contracts ["read-contract"]) (contracts ["read-contract"]) = [] := by
    decide +kernel
  exact ⟨hnone, (no_difference_agrees_iff hvalid hvalid).mpr (fun _ => huncompared) hnone⟩

end OpenRupiv.Generator
