import OpenRupiv.Runtime.Naming

/-!
# Entity models and request bodies

`packages/runtime/src/records.ts`.  A `Map` is the list of its entries in insertion order.
-/

namespace OpenRupiv.Runtime

open Js Spec

variable {α : Type}

/-- `Map.prototype.set`. -/
def mapSet (m : List (String × α)) (k : String) (v : α) : List (String × α) :=
  if m.any fun e => e.1 == k then m.map fun e => if e.1 = k then (k, v) else e else m ++ [(k, v)]

/-- `new Map(entries)`. -/
def newMap (entries : List (String × α)) : List (String × α) :=
  entries.foldl (fun m e => mapSet m e.1 e.2) []

structure EntityModel where
  entity : EntityDef
  table : String
  apiSegment : String
  fieldByName : List (String × FieldDef)
  /-- Field name → initial state. -/
  stateFields : List (String × String)
  workflows : List WorkflowDef
  deriving DecidableEq

def buildEntityModel (spec : AppSpec) (entity : EntityDef) : EntityModel :=
  let workflows := (spec.workflows.getD []).filter fun w => w.entity = entity.name
  { entity
    table := entityTable entity.name
    apiSegment := entityApiSegment entity.name
    fieldByName := newMap (entity.fields.map fun f => (f.name, f))
    stateFields := newMap (workflows.map fun w => (w.stateField, w.initial))
    workflows }

/-- The first page of a type that is bound to an entity. -/
def pageFor (spec : AppSpec) (entityName : String) (type : PageType) : Option PageDef :=
  (spec.pages.getD []).find? fun p => p.type = type && p.entity = entityName

inductive BodySource where
  | json
  | form
  deriving DecidableEq

inductive Mode where
  | create
  | update
  deriving DecidableEq

def Mode.print : Mode → String
  | .create => "create"
  | .update => "update"

/-- What JavaScript leaves to its host: `Date.parse` and `Number` on texts, without `NaN`. -/
structure Host where
  dateParse : Text → Option Int
  toNumber : Text → Option Num

/-- What `input[name]` yields when it is not undefined. -/
inductive Raw where
  | own (v : Json)
  | inherited

/-- The properties that an object has from `Object.prototype`. -/
def objectPrototype : List String :=
  ["constructor", "toString", "toLocaleString", "valueOf", "hasOwnProperty", "isPrototypeOf",
    "propertyIsEnumerable", "__proto__", "__defineGetter__", "__defineSetter__",
    "__lookupGetter__", "__lookupSetter__"]

/-- A parsed form has no prototype, a parsed JSON object has the ordinary one. -/
def property (source : BodySource) (input : List (Text × Json)) (name : String) : Option Raw :=
  match input.lookup (ofString name) with
  | some v => some (.own v)
  | none => if source = .json ∧ name ∈ objectPrototype then some .inherited else none

/-- `coerceValue`; an error is the message of the problem. -/
def coerceValue (host : Host) (field : FieldDef) (raw : Raw) (source : BodySource) :
    Except Text Scalar :=
  match field.type with
  | .string | .text =>
      match raw with
      | .own (.scalar (.str s)) => .ok (.str s)
      | _ => .error (ofString "must be a string")
  | .number =>
      match raw with
      | .own (.scalar (.num n)) =>
          if n.isFinite then .ok (.num n) else .error (ofString "must be a finite number")
      | .own (.scalar (.str s)) =>
          if source = .form then
            match host.toNumber s with
            | some n => if n.isFinite then .ok (.num n) else .error (ofString "must be a finite number")
            | none => .error (ofString "must be a finite number")
          else .error (ofString "must be a number")
      | _ => .error (ofString "must be a number")
  | .boolean =>
      match raw with
      | .own (.scalar (.bool b)) => .ok (.bool b)
      | .own (.scalar (.str s)) =>
          if source = .form ∧ s ∈ [ofString "true", ofString "on", ofString "1"] then .ok (.bool true)
          else if source = .form ∧ s ∈ [ofString "false", ofString "off", ofString "0"] then
            .ok (.bool false)
          else .error (ofString "must be a boolean")
      | _ => .error (ofString "must be a boolean")
  | .date | .datetime =>
      match raw with
      | .own (.scalar (.str s)) =>
          if (host.dateParse s).isSome then .ok (.str s)
          else .error (ofString ("must be an ISO " ++ field.type.print ++ " string"))
      | _ => .error (ofString ("must be an ISO " ++ field.type.print ++ " string"))
  | .enum =>
      match raw with
      | .own (.scalar (.str s)) =>
          if s ∈ (field.values.getD []).map ofString then .ok (.str s)
          else .error (ofString "must be one of " ++ jsonTexts (field.values.getD []))
      | _ => .error (ofString "must be one of " ++ jsonTexts (field.values.getD []))
  | .reference =>
      match raw with
      | .own (.scalar (.str s)) =>
          if isUuid s then .ok (.str s)
          else .error (ofString "must be a UUID referencing an existing record")
      | _ => .error (ofString "must be a UUID referencing an existing record")

def stateFieldReadonly (key : Text) : RuntimeError where
  code := .ERR_STATE_FIELD_READONLY
  message := ofString "field " ++ jsonText key ++ ofString
    " is a workflow state field and is read-only; use the transition endpoints to change it"
  statusCode := 400
  details := some (.field key)

def hasKey (m : List (String × α)) (key : Text) : Bool := m.any fun e => ofString e.1 == key

/-- An empty field of a form counts as absent. -/
def isBlank (source : BodySource) : Raw → Bool
  | .own (.scalar (.str [])) => source = .form
  | _ => false

/-- The round of the second loop of `validateBody` for one field: the problem it finds, or what it
sets in `data`. -/
def validateField (host : Host) (model : EntityModel) (input : List (Text × Json)) (mode : Mode)
    (source : BodySource) (field : FieldDef) : Except FieldProblem (Option (String × Scalar)) :=
  if model.stateFields.any fun e => e.1 == field.name then .ok none
  else
    let problem (message : Text) : FieldProblem := { field := ofString field.name, message }
    match (property source input field.name).filter fun raw => !isBlank source raw with
    | none =>
        if mode = .create ∧ field.required = some true ∧ field.default = none then
          .error (problem (ofString "required field is missing"))
        else .ok none
    | some (.own (.scalar .null)) =>
        if field.required = some true then
          .error (problem (ofString "required field must not be null"))
        else .ok (some (field.name, .null))
    | some raw =>
        match coerceValue host field raw source with
        | .ok value => .ok (some (field.name, value))
        | .error message => .error (problem message)

/-- The data of a body that passes: field name → SQL parameter. -/
def validateBody (host : Host) (model : EntityModel) (body : Json) (mode : Mode)
    (source : BodySource) : Except RuntimeError (List (String × Scalar)) :=
  match body with
  | .obj input =>
      let keys := keysOf (ownEntries input)
      match keys.find? (hasKey model.stateFields) with
      | some key => .error (stateFieldReadonly key)
      | none =>
          let rounds := model.entity.fields.map (validateField host model input mode source)
          let unknown := (keys.filter fun key => !hasKey model.fieldByName key).map fun key =>
            { field := key, message := ofString "unknown field" : FieldProblem }
          let problems := unknown ++ rounds.filterMap fun
            | .error problem => some problem
            | .ok _ => none
          if problems ≠ [] then
            .error
              { code := .ERR_VALIDATION
                message := ofString "request body failed validation"
                statusCode := 400
                details := some (.problems problems) }
          else
            .ok (newMap (rounds.filterMap fun
              | .ok (some entry) => some entry
              | _ => none))
  | _ =>
      .error
        { code := .ERR_VALIDATION
          message := ofString "request body must be an object"
          statusCode := 400 }

/-- A row of an entity table: column → value. -/
abbrev Row := String → Option SqlValue

def normalizeValue : Option SqlValue → SqlValue
  | none => .null
  | some (.date ms) => .str (toISOString ms)
  | some v => v

def rowToRecord (model : EntityModel) (row : Row) : List (String × SqlValue) :=
  let fields := model.entity.fields.map fun field => (field.name, normalizeValue (row (columnFor field)))
  newMap ([("id", (row "id").getD .null)] ++ fields ++
    [("createdAt", normalizeValue (row "created_at")), ("updatedAt", normalizeValue (row "updated_at"))])

theorem mem_mapSet {m : List (String × α)} {k : String} {v : α} {e : String × α}
    (h : e ∈ mapSet m k v) : e ∈ m ∨ e = (k, v) := by
  unfold mapSet at h
  split at h
  · obtain ⟨d, hd, rfl⟩ := List.mem_map.mp h
    by_cases hk : d.1 = k
    · simp [hk]
    · simp [hk, hd]
  · simpa using h

theorem mem_newMap {entries : List (String × α)} {e : String × α} (h : e ∈ newMap entries) :
    e ∈ entries := by
  unfold newMap at h
  induction entries using List.reverseRecOn with
  | nil => simp at h
  | append_singleton entries d ih =>
    rw [List.foldl_append] at h
    rcases mem_mapSet h with h | rfl
    · exact List.mem_append_left _ (ih h)
    · simp

theorem newMap_concat (entries : List (String × α)) (d : String × α) :
    newMap (entries ++ [d]) = mapSet (newMap entries) d.1 d.2 := by
  rw [newMap, List.foldl_append]
  rfl

theorem lookup_mapSet (m : List (String × α)) (k k' : String) (v : α) :
    (mapSet m k v).lookup k' = if k' = k then some v else m.lookup k' := by
  unfold mapSet
  by_cases hany : (m.any fun e => e.1 == k) = true
  · rw [if_pos hany]
    induction m with
    | nil => exact absurd hany (by simp)
    | cons e m ih =>
      by_cases he : e.1 = k
      · by_cases hk : k' = k
        · simp [he, hk]
        · -- the entry that is replaced is not the one looked up
          have hbeq : (k' == k) = false := by simp [hk]
          have htail : (m.map fun e => if e.1 = k then (k, v) else e).lookup k' = m.lookup k' := by
            by_cases htail : (m.any fun e => e.1 == k) = true
            · rw [ih htail, if_neg hk]
            · congr 1
              apply (List.map_congr_left _).trans (List.map_id _)
              intro d hd
              have hne : ¬d.1 = k := fun heq => htail (List.any_eq_true.mpr ⟨d, hd, by simp [heq]⟩)
              simp [hne]
          rw [if_neg hk]
          simp only [List.map_cons, he, if_true]
          rw [List.lookup_cons, List.lookup_cons, hbeq, he, hbeq]
          exact htail
      · have htail : (m.any fun e => e.1 == k) = true := by simpa [he] using hany
        simp only [List.map_cons, he, if_false]
        rw [List.lookup_cons, List.lookup_cons, ih htail]
        by_cases hk : k' = k
        · have hbeq : (k == e.1) = false := by simp [Ne.symm he]
          simp [hk, hbeq]
        · simp only [if_neg hk]
  · rw [if_neg hany, List.lookup_append]
    by_cases hk : k' = k
    · subst hk
      have hnone : m.lookup k' = none := by
        apply List.lookup_eq_none_iff.mpr
        intro e he
        by_contra hbeq
        exact hany (List.any_eq_true.mpr ⟨e, he, by simp_all⟩)
      simp [hnone]
    · have hbeq : (k' == k) = false := by simp [hk]
      simp [hk, List.lookup_cons, hbeq]

theorem lookup_newMap (entries : List (String × α)) (k : String) :
    (newMap entries).lookup k = entries.reverse.lookup k := by
  induction entries using List.reverseRecOn with
  | nil => rfl
  | append_singleton entries d ih =>
    rw [newMap_concat, lookup_mapSet, List.reverse_append, List.reverse_singleton,
      List.singleton_append, List.lookup_cons, ih]
    by_cases hk : k = d.1
    · simp [hk]
    · have hbeq : (k == d.1) = false := by simp [hk]
      rw [if_neg hk, hbeq]

private theorem keys_mapSet (m : List (String × α)) (k : String) (v : α) :
    (mapSet m k v).map Prod.fst = if k ∈ m.map Prod.fst then m.map Prod.fst
      else m.map Prod.fst ++ [k] := by
  unfold mapSet
  have hany : (m.any fun e => e.1 == k) = true ↔ k ∈ m.map Prod.fst := by
    simp [List.any_eq_true]
  by_cases hk : k ∈ m.map Prod.fst
  · rw [if_pos (hany.mpr hk), if_pos hk, List.map_map]
    apply List.map_congr_left
    intro e _
    by_cases he : e.1 = k
    · simp [he]
    · simp [he]
  · rw [if_neg fun h => hk (hany.mp h), if_neg hk, List.map_append, List.map_singleton]

theorem mem_keys_newMap {entries : List (String × α)} {k : String} :
    k ∈ (newMap entries).map Prod.fst ↔ k ∈ entries.map Prod.fst := by
  induction entries using List.reverseRecOn with
  | nil => exact Iff.rfl
  | append_singleton entries d ih =>
    rw [newMap_concat, keys_mapSet, List.map_append, List.mem_append, ← ih]
    by_cases hd : d.1 ∈ (newMap entries).map Prod.fst
    · rw [if_pos hd, List.map_singleton, List.mem_singleton]
      constructor
      · exact .inl
      · intro h
        rcases h with h | rfl
        · exact h
        · exact hd
    · rw [if_neg hd, List.mem_append, List.map_singleton]

theorem newMap_of_nodup {entries : List (String × α)} (h : (entries.map Prod.fst).Nodup) :
    newMap entries = entries := by
  induction entries using List.reverseRecOn with
  | nil => rfl
  | append_singleton entries d ih =>
    rw [List.map_append, List.map_singleton, List.nodup_append] at h
    rw [newMap_concat, ih h.1, mapSet, if_neg]
    intro hany
    obtain ⟨e, he, heq⟩ := List.any_eq_true.mp hany
    exact h.2.2 e.1 (List.mem_map_of_mem he) d.1 (List.mem_singleton_self _) (by simpa using heq)

theorem lookup_newMap_named {f : α → String} {xs : List α} {name : String} {x : α}
    (h : (newMap (xs.map fun x => (f x, x))).lookup name = some x) : f x = name ∧ x ∈ xs := by
  obtain ⟨before, after, heq, -⟩ := List.lookup_eq_some_iff.mp h
  have hmem : (name, x) ∈ newMap (xs.map fun x => (f x, x)) := by
    rw [heq]
    exact List.mem_append_right _ List.mem_cons_self
  obtain ⟨y, hy, hpair⟩ := List.mem_map.mp (mem_newMap hmem)
  obtain ⟨hname, rfl⟩ := Prod.mk.inj hpair
  exact ⟨hname, hy⟩

theorem validateField_eq_some {host : Host} {model : EntityModel}
    {input : List (Text × Json)} {mode : Mode} {source : BodySource} {field : FieldDef}
    {e : String × Scalar} (h : validateField host model input mode source field = .ok (some e)) :
    e.1 = field.name ∧ field.name ∉ model.stateFields.map Prod.fst := by
  unfold validateField at h
  by_cases hstate : (model.stateFields.any fun e => e.1 == field.name) = true
  · simp [hstate] at h
  have hfield : field.name ∉ model.stateFields.map Prod.fst := by
    intro hmem
    obtain ⟨d, hd, hname⟩ := List.mem_map.mp hmem
    exact hstate (List.any_eq_true.mpr ⟨d, hd, by simp [hname]⟩)
  refine ⟨?_, hfield⟩
  simp only [hstate, Bool.false_eq_true, if_false] at h
  split at h
  · split at h <;> exact absurd h (by simp)
  · split at h
    · exact absurd h (by simp)
    · simp only [Except.ok.injEq, Option.some.injEq] at h
      rw [← h]
  · split at h
    · simp only [Except.ok.injEq, Option.some.injEq] at h
      rw [← h]
    · exact absurd h (by simp)

/-- A body that passes: it names fields only, none of them a state field, and every round of the loop
goes well. -/
theorem validateBody_eq_ok_iff {host : Host} {model : EntityModel} {body : Json} {mode : Mode}
    {source : BodySource} {data : List (String × Scalar)} :
    validateBody host model body mode source = .ok data ↔
      ∃ input, body = .obj input ∧
        (∀ key ∈ keysOf (ownEntries input), hasKey model.stateFields key = false ∧
          hasKey model.fieldByName key = true) ∧
        (∀ field ∈ model.entity.fields,
          ∃ set, validateField host model input mode source field = .ok set) ∧
        data = newMap (model.entity.fields.filterMap fun field =>
          match validateField host model input mode source field with
          | .ok set => set
          | .error _ => none) := by
  cases body with
  | scalar s => simp [validateBody]
  | arr items => simp [validateBody]
  | obj input =>
    have hdata : (model.entity.fields.map (validateField host model input mode source)).filterMap (fun
        | .ok (some entry) => some entry
        | _ => none) = model.entity.fields.filterMap fun field =>
          match validateField host model input mode source field with
          | .ok set => set
          | .error _ => none := by
      rw [List.filterMap_map]
      congr 1
      funext field
      dsimp only [Function.comp_apply]
      cases validateField host model input mode source field with
      | error problem => rfl
      | ok set => cases set <;> rfl
    have hproblems : (model.entity.fields.map (validateField host model input mode source)).filterMap
        (fun
          | .error problem => some problem
          | .ok _ => none) = [] ↔ ∀ field ∈ model.entity.fields,
            ∃ set, validateField host model input mode source field = .ok set := by
      rw [List.filterMap_map, List.filterMap_eq_nil_iff]
      refine forall₂_congr fun field _ => ?_
      dsimp only [Function.comp_apply]
      cases validateField host model input mode source field with
      | error problem => simp
      | ok set => simp
    simp only [validateBody, Json.obj.injEq, exists_eq_left']
    cases hfind : (keysOf (ownEntries input)).find? (hasKey model.stateFields) with
    | some key =>
      have hkey := List.find?_some hfind
      have hmem := List.mem_of_find?_eq_some hfind
      simp only [reduceCtorEq, false_iff, not_and]
      intro hkeys
      rw [(hkeys key hmem).1] at hkey
      exact absurd hkey (by simp)
    | none =>
      have hstate : ∀ key ∈ keysOf (ownEntries input), hasKey model.stateFields key = false := by
        intro key hkey
        simpa using List.find?_eq_none.mp hfind key hkey
      dsimp only
      rw [hdata]
      by_cases hnil : ((keysOf (ownEntries input)).filter fun key => !hasKey model.fieldByName key).map
            (fun key => ({ field := key, message := ofString "unknown field" } : FieldProblem)) ++
          (model.entity.fields.map (validateField host model input mode source)).filterMap (fun
            | .error problem => some problem
            | .ok _ => none) = []
      · rw [if_neg (not_not.mpr hnil)]
        rw [List.append_eq_nil_iff, List.map_eq_nil_iff, List.filter_eq_nil_iff, hproblems] at hnil
        rw [Except.ok.injEq, eq_comm]
        refine ⟨fun hd => ⟨fun key hkey => ⟨hstate key hkey, by simpa using hnil.1 key hkey⟩, hnil.2, hd⟩,
          fun h => h.2.2⟩
      · rw [if_pos hnil]
        simp only [reduceCtorEq, false_iff, not_and]
        intro hkeys hrounds
        refine absurd ?_ hnil
        rw [List.append_eq_nil_iff, List.map_eq_nil_iff, List.filter_eq_nil_iff, hproblems]
        refine ⟨fun key hkey => ?_, hrounds⟩
        simp [(hkeys key hkey).2]

theorem round_of_mem_validateBody {host : Host} {model : EntityModel} {body : Json} {mode : Mode}
    {source : BodySource} {data : List (String × Scalar)}
    (h : validateBody host model body mode source = .ok data) {e : String × Scalar} (he : e ∈ data) :
    ∃ input, body = .obj input ∧ ∃ field ∈ model.entity.fields,
      validateField host model input mode source field = .ok (some e) := by
  obtain ⟨input, hbody, -, -, rfl⟩ := validateBody_eq_ok_iff.mp h
  obtain ⟨field, hfield, hset⟩ := List.mem_filterMap.mp (mem_newMap he)
  refine ⟨input, hbody, field, hfield, ?_⟩
  cases hround : validateField host model input mode source field with
  | error problem => simp [hround] at hset
  | ok set => simpa [hround] using hset

/-- A body that passes sets fields of the entity, and none of its state fields. -/
theorem field_of_mem_validateBody {host : Host} {model : EntityModel} {body : Json} {mode : Mode}
    {source : BodySource} {data : List (String × Scalar)}
    (h : validateBody host model body mode source = .ok data) {e : String × Scalar} (he : e ∈ data) :
    (∃ field ∈ model.entity.fields, field.name = e.1) ∧ e.1 ∉ model.stateFields.map Prod.fst := by
  obtain ⟨input, -, field, hfield, hround⟩ := round_of_mem_validateBody h he
  obtain ⟨hname, hstate⟩ := validateField_eq_some hround
  rw [hname]
  exact ⟨⟨field, hfield, rfl⟩, hstate⟩

end OpenRupiv.Runtime
