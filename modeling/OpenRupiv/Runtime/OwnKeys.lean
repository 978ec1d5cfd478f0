import OpenRupiv.Runtime.Records
import OpenRupiv.Spec.Validate

/-!
# The own keys of a body

What is read of a JSON body by name also finds what the body inherits.  A field that has such a name
and is left out of the body is not absent.
-/

namespace OpenRupiv.Runtime

open Js Spec

variable {host : Host} {model : EntityModel} {input : List (Text × Json)} {mode : Mode}
  {field : FieldDef}

/-- The round of a field that is read of the own keys only. -/
def validateOwnField (host : Host) (model : EntityModel) (input : List (Text × Json)) (mode : Mode)
    (field : FieldDef) : Except FieldProblem (Option (String × Scalar)) :=
  match input.lookup (ofString field.name) with
  | some _ => validateField host model input mode .json field
  | none =>
      if ¬model.stateFields.any (fun e => e.1 == field.name) ∧
          mode = .create ∧ field.required = some true ∧ field.default = none then
        .error { field := ofString field.name, message := ofString "required field is missing" }
      else .ok none

/-- What a body with these keys is answered, given the rounds of the fields. -/
def answerRounds (model : EntityModel) (input : List (Text × Json))
    (rounds : List (Except FieldProblem (Option (String × Scalar)))) :
    Except RuntimeError (List (String × Scalar)) :=
  let keys := keysOf (ownEntries input)
  match keys.find? (hasKey model.stateFields) with
  | some key => .error (stateFieldReadonly key)
  | none =>
      let unknown := (keys.filter fun key => !hasKey model.fieldByName key).map fun key =>
        { field := key, message := ofString "unknown field" : FieldProblem }
      let problems := unknown ++ rounds.filterMap fun
        | .error problem => some problem
        | .ok _ => none
      if problems ≠ [] then
        .error
          { code := .ERR_VALIDATION
            message := ofString "request body failed validation"
            statusCode := 400
            details := some (.problems problems) }
      else
        .ok (newMap (rounds.filterMap fun
          | .ok (some entry) => some entry
          | _ => none))

def validateOwnKeys (host : Host) (model : EntityModel) (input : List (Text × Json)) (mode : Mode) :
    Except RuntimeError (List (String × Scalar)) :=
  answerRounds model input (model.entity.fields.map (validateOwnField host model input mode))

theorem validateBody_eq_answerRounds :
    validateBody host model (.obj input) mode .json =
      answerRounds model input (model.entity.fields.map (validateField host model input mode .json)) :=
  rfl

theorem coerceValue_inherited (host : Host) (field : FieldDef) (source : BodySource) :
    ∃ message, coerceValue host field .inherited source = .error (ofString "must be" ++ message) := by
  unfold coerceValue
  cases field.type with
  | string => exact ⟨ofString " a string", rfl⟩
  | text => exact ⟨ofString " a string", rfl⟩
  | number => exact ⟨ofString " a number", rfl⟩
  | boolean => exact ⟨ofString " a boolean", rfl⟩
  | date => exact ⟨ofString " an ISO date string", rfl⟩
  | datetime => exact ⟨ofString " an ISO datetime string", rfl⟩
  | «enum» => exact ⟨ofString " one of " ++ jsonTexts (field.values.getD []), rfl⟩
  | reference => exact ⟨ofString " a UUID referencing an existing record", rfl⟩

/-- The field is not in the body, and what is read of it comes from the prototype. -/
def Collides (model : EntityModel) (input : List (Text × Json)) (field : FieldDef) : Prop :=
  field.name ∉ model.stateFields.map Prod.fst ∧ ofString field.name ∉ keysOf input ∧
    field.name ∈ objectPrototype

theorem lookup_eq_none_iff_keysOf {key : Text} : input.lookup key = none ↔ key ∉ keysOf input := by
  rw [List.lookup_eq_none_iff, keysOf, List.mem_map]
  constructor
  · intro h hmem
    obtain ⟨e, he, rfl⟩ := hmem
    exact absurd (h e he) (by simp)
  · intro h e he
    rw [bne_iff_ne]
    intro heq
    exact h ⟨e, he, heq.symm⟩

theorem any_stateFields :
    (model.stateFields.any fun e => e.1 == field.name) = true ↔
      field.name ∈ model.stateFields.map Prod.fst := by
  simp [List.any_eq_true]

theorem validateField_of_not_collides (h : ¬Collides model input field) :
    validateField host model input mode .json field =
      validateOwnField host model input mode field := by
  unfold validateOwnField
  cases hlookup : input.lookup (ofString field.name) with
  | some v => rfl
  | none =>
    have hkey := lookup_eq_none_iff_keysOf.mp hlookup
    unfold validateField
    by_cases hstate : (model.stateFields.any fun e => e.1 == field.name) = true
    · simp [hstate]
    · have hname : field.name ∉ objectPrototype := by
        intro hname
        exact h ⟨fun hmem => hstate (any_stateFields.mpr hmem), hkey, hname⟩
      simp [hstate, property, hlookup, hname]

theorem Collides.validateField (host : Host) (mode : Mode) (h : Collides model input field) :
    ∃ message, Runtime.validateField host model input mode .json field =
      .error { field := ofString field.name, message := ofString "must be" ++ message } := by
  obtain ⟨hstate, hkey, hname⟩ := h
  obtain ⟨message, hmessage⟩ := coerceValue_inherited host field .json
  refine ⟨message, ?_⟩
  have hany : (model.stateFields.any fun e => e.1 == field.name) = false := by
    rw [Bool.eq_false_iff]
    exact fun hany => hstate (any_stateFields.mp hany)
  have hproperty : (property .json input field.name).filter (fun raw => !isBlank .json raw) =
      some .inherited := by
    rw [property, lookup_eq_none_iff_keysOf.mpr hkey]
    simp only [true_and, if_pos hname]
    rfl
  simp only [Runtime.validateField, hany, Bool.false_eq_true, if_false, hproperty, hmessage]

theorem Collides.validateOwnField (host : Host) (mode : Mode) (h : Collides model input field) :
    Runtime.validateOwnField host model input mode field = .ok none ∨
      Runtime.validateOwnField host model input mode field =
        .error { field := ofString field.name, message := ofString "required field is missing" } := by
  unfold Runtime.validateOwnField
  rw [lookup_eq_none_iff_keysOf.mpr h.2.1]
  dsimp only
  split
  · exact .inr rfl
  · exact .inl rfl

theorem must_be_ne_required (message : Text) :
    ofString "must be" ++ message ≠ ofString "required field is missing" := by
  intro h
  have hstart : ofString "must be" <+: ofString "required field is missing" := ⟨message, h⟩
  exact absurd hstart (by decide)

/-- Where one list of problems has all the places of another, they agree only place by place. -/
theorem eq_of_filterMap_eq {α γ : Type} {f g : α → Option γ} {xs : List α}
    (h : ∀ x ∈ xs, (g x).isSome = true → (f x).isSome = true)
    (heq : xs.filterMap f = xs.filterMap g) : ∀ x ∈ xs, f x = g x := by
  induction xs with
  | nil => simp
  | cons x xs ih =>
    have htail : ∀ y ∈ xs, (g y).isSome = true → (f y).isSome = true :=
      fun y hy => h y (List.mem_cons_of_mem _ hy)
    have hhead : f x = g x ∧ xs.filterMap f = xs.filterMap g := by
      cases hf : f x with
      | none =>
        cases hg : g x with
        | none => exact ⟨rfl, by simpa [List.filterMap_cons, hf, hg] using heq⟩
        | some b =>
          have hsome := h x List.mem_cons_self (by simp [hg])
          simp [hf] at hsome
      | some a =>
        cases hg : g x with
        | none =>
          have hlength := congrArg List.length heq
          have hle : (xs.filterMap g).length ≤ (xs.filterMap f).length := by
            rw [List.length_filterMap_eq_countP, List.length_filterMap_eq_countP]
            exact List.countP_mono_left htail
          simp only [List.filterMap_cons, hf, hg, List.length_cons] at hlength
          omega
        | some b => simpa [List.filterMap_cons, hf, hg] using heq
    intro y hy
    rcases List.mem_cons.mp hy with rfl | hy
    · exact hhead.1
    · exact ih htail hhead.2 y hy

/-- What is answered to a body without a state field tells the problems of its rounds. -/
theorem errors_eq_of_answerRounds_eq
    {rounds rounds' : List (Except FieldProblem (Option (String × Scalar)))}
    (hkeys : ∀ key ∈ keysOf (ownEntries input), hasKey model.stateFields key = false)
    (h : answerRounds model input rounds = answerRounds model input rounds') :
    (rounds.filterMap fun
      | .error problem => some problem
      | .ok _ => none) =
    rounds'.filterMap fun
      | .error problem => some problem
      | .ok _ => none := by
  have hfind : (keysOf (ownEntries input)).find? (hasKey model.stateFields) = none := by
    rw [List.find?_eq_none]
    intro key hkey
    simp [hkeys key hkey]
  simp only [answerRounds, hfind] at h
  split at h
  · split at h
    · simp only [Except.error.injEq, RuntimeError.mk.injEq, Option.some.injEq,
        ErrorDetails.problems.injEq, List.append_cancel_left_eq, true_and] at h
      exact h
    · exact absurd h (by simp)
  · rename_i hnone
    split at h
    · exact absurd h (by simp)
    · rename_i hnone'
      rw [not_not, List.append_eq_nil_iff] at hnone hnone'
      rw [hnone.2, hnone'.2]

theorem answerRounds_of_state_key {key : Text} (hkey : key ∈ keysOf (ownEntries input))
    (hstate : hasKey model.stateFields key = true)
    (rounds rounds' : List (Except FieldProblem (Option (String × Scalar)))) :
    answerRounds model input rounds = answerRounds model input rounds' := by
  cases hfind : (keysOf (ownEntries input)).find? (hasKey model.stateFields) with
  | none => exact absurd hstate (by simpa using List.find?_eq_none.mp hfind key hkey)
  | some found => simp only [answerRounds, hfind]

/-- A JSON body is answered on its own keys alone exactly when it names a state field, for which it is
refused anyway, or no field that it leaves out is found in the prototype. -/
theorem own_keys_decide_iff (host : Host) (spec : AppSpec) (entity : EntityDef)
    (input : List (Text × Json)) (mode : Mode) :
    validateBody host (buildEntityModel spec entity) (.obj input) mode .json =
        validateOwnKeys host (buildEntityModel spec entity) input mode ↔
      (∃ key ∈ keysOf input, hasKey (buildEntityModel spec entity).stateFields key = true) ∨
        ∀ field ∈ entity.fields,
          field.name ∈ (buildEntityModel spec entity).stateFields.map Prod.fst ∨
            ofString field.name ∈ keysOf input ∨ field.name ∉ objectPrototype := by
  have hown : ∀ key, key ∈ keysOf (ownEntries input) ↔ key ∈ keysOf input :=
    fun key => ((perm_ownEntries input).map Prod.fst).mem_iff
  rw [validateBody_eq_answerRounds, validateOwnKeys]
  constructor
  · intro h
    by_cases hstate :
        ∃ key ∈ keysOf input, hasKey (buildEntityModel spec entity).stateFields key = true
    · exact .inl hstate
    · right
      intro field hfield
      by_contra hcollides
      replace hcollides : Collides (buildEntityModel spec entity) input field := by
        push Not at hcollides
        exact hcollides
      have hkeys : ∀ key ∈ keysOf (ownEntries input),
          hasKey (buildEntityModel spec entity).stateFields key = false := by
        intro key hkey
        rw [Bool.eq_false_iff]
        exact fun hkey' => hstate ⟨key, (hown key).mp hkey, hkey'⟩
      have herrors := errors_eq_of_answerRounds_eq hkeys h
      rw [List.filterMap_map, List.filterMap_map] at herrors
      have hplace := eq_of_filterMap_eq (fun other _ hsome => ?_) herrors field hfield
      · obtain ⟨message, hmessage⟩ := hcollides.validateField host mode
        simp only [Function.comp_apply, hmessage] at hplace
        rcases hcollides.validateOwnField host mode with hround | hround
        · simp [hround] at hplace
        · rw [hround] at hplace
          simp only [Option.some.injEq, FieldProblem.mk.injEq, true_and] at hplace
          exact must_be_ne_required message hplace
      · by_cases hother : Collides (buildEntityModel spec entity) input other
        · obtain ⟨message, hmessage⟩ := hother.validateField host mode
          simp only [Function.comp_apply, hmessage, Option.isSome_some]
        · rw [Function.comp_apply, validateField_of_not_collides hother]
          exact hsome
  · intro h
    rcases h with ⟨key, hkey, hstate⟩ | hfields
    · exact answerRounds_of_state_key ((hown key).mpr hkey) hstate _ _
    · congr 1
      apply List.map_congr_left
      intro field hfield
      apply validateField_of_not_collides
      intro hcollides
      rcases hfields field hfield with hstate | hkey | hname
      · exact hcollides.1 hstate
      · exact hcollides.2.1 hkey
      · exact hname hcollides.2.2

/-- Contracts with an optional text that has the name of a property of every object. -/
def contractsWithConstructor : AppSpec where
  specVersion := .v0_2
  app := { name := "Contracts", slug := "contracts", version := "1.0.0" }
  entities := [{ name := "Contract", fields := [{ name := "constructor", type := .string }] }]

/-- A body without keys is refused, where on its own keys it has nothing to be refused for. -/
theorem omitted_constructor_refused :
    contractsWithConstructor.valid = true ∧
      ∀ host : Host, ∀ entity ∈ contractsWithConstructor.entities, ∀ mode,
        validateBody host (buildEntityModel contractsWithConstructor entity) (.obj []) mode .json =
          .error
            { code := .ERR_VALIDATION
              message := ofString "request body failed validation"
              statusCode := 400
              details := some (.problems
                [{ field := ofString "constructor", message := ofString "must be a string" }]) } ∧
        validateOwnKeys host (buildEntityModel contractsWithConstructor entity) [] mode = .ok [] := by
  refine ⟨by decide, fun host entity hentity mode => ?_⟩
  obtain rfl := List.mem_singleton.mp hentity
  cases mode with
  | create => exact ⟨rfl, rfl⟩
  | update => exact ⟨rfl, rfl⟩

end OpenRupiv.Runtime
