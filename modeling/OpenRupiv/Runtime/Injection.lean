import OpenRupiv.Runtime.Calls
import OpenRupiv.Runtime.Interpolation

/-!
# Pages in two runs

Two databases and sessions of one shape get pages that differ only in their values, and so pages
with the same tags.
-/

namespace OpenRupiv.Runtime

open Js Spec Html

/-- The workflow states of the record of a detail page, with the approval counts of the
transitions. -/
def progress (model : EntityModel) (request : PageRequest) :
    Option (List (Option SqlValue × List Nat)) := do
  let id ← request.id.filter isUuid
  let row ← request.contents.row model.table id
  let counts := approvalCounts (request.contents.approvals model.table id)
  return model.workflows.map fun workflow =>
    (row.value (toSnakeCase workflow.stateField),
      workflow.transitions.map fun t => (counts.lookup t.name).getD 0)

/-- Two runs of a page have the same rows, states and counts.  All else may differ, nulls too. -/
structure SameShape (spec : AppSpec) (page : PageDef) (r₁ r₂ : PageRequest) : Prop where
  rows : ∀ table, (r₁.contents.rows table).length = (r₂.contents.rows table).length
  progress : page.type = .detail → ∀ entity, spec.entityByName page.entity = some entity →
    progress (buildEntityModel spec entity) r₁ = progress (buildEntityModel spec entity) r₂

/-- A page is read as tokens in which each of its values stands as itself, in text or in an
attribute value, and nowhere else. -/
def ReadsBack (page : List Symbol) : Prop :=
  ∃ tokens : List (Token Symbol),
    tokenize texts (render page) = some (tokens.flatMap (Token.expand Symbol.own)) ∧
      tokens.flatMap (Token.gather Symbol.values) = page.flatMap Symbol.values

/-- Two pages have the same tags, with the same attributes, in the same order. -/
def SameTags (p₁ p₂ : List Symbol) : Prop :=
  (tokenize texts (render p₁)).map tags = (tokenize texts (render p₂)).map tags

theorem readsBack_of_sound {page : List Symbol} (h : Html.Sound page) : ReadsBack page := by
  unfold ReadsBack
  rw [render_eq]
  exact h.tokenize

theorem sameTags_of_sound {p₁ p₂ : List Symbol} (h₁ : Html.Sound p₁) (h₂ : Html.Sound p₂)
    (herase : p₁.map Symbol.erase = p₂.map Symbol.erase) : SameTags p₁ p₂ := by
  unfold SameTags
  rw [render_eq, render_eq]
  exact h₁.tags_eq h₂ herase

theorem map_erase_layout (title : Text) (user : Option PageUser) (body : List Symbol) :
    (layout title user body).map Symbol.erase = layout [] none (body.map Symbol.erase) := by
  simp only [layout, List.map_append, map_erase_html, List.map_cons, List.map_nil, Symbol.erase,
    Option.elim_none]

theorem map_erase_joinLines (parts : List (List Symbol)) :
    (joinLines parts).map Symbol.erase = joinLines (parts.map (List.map Symbol.erase)) := by
  have hbreak : (html ["\n"] []).map Symbol.erase = html ["\n"] [] := by
    rw [map_erase_html, List.map_nil]
  unfold joinLines
  induction parts with
  | nil => rfl
  | cons part parts ih =>
    cases parts with
    | nil => simp [List.intercalate]
    | cons next parts =>
      rw [List.map_cons] at ih
      rw [List.intercalate_cons_cons, List.map_append, List.map_append, hbreak, ih, List.map_cons,
        List.map_cons, List.intercalate_cons_cons]

theorem map_eq_of_const {α β : Type} {f : α → β} (h : ∀ x y, f x = f y) {xs ys : List α}
    (hlength : xs.length = ys.length) : xs.map f = ys.map f := by
  apply List.ext_getElem
  · simpa using hlength
  · intro i hx hy
    simp only [List.getElem_map]
    exact h _ _

section

variable {spec : AppSpec} {page : PageDef} {model : EntityModel} {r₁ r₂ : PageRequest}

theorem erase_indexPage :
    (indexPage spec r₁).map Symbol.erase = (indexPage spec r₂).map Symbol.erase := by
  simp only [indexPage, map_erase_layout]

theorem erase_listRow (fields : List FieldDef) (detail : Option PageDef)
    (record other : List (String × SqlValue)) :
    (listRow fields detail record).map Symbol.erase =
      (listRow fields detail other).map Symbol.erase := by
  cases detail <;>
    simp only [listRow, List.map_append, List.map_flatMap, map_erase_html, List.map_cons,
      List.map_nil, Symbol.erase, Option.elim_none, Option.elim_some]

theorem erase_listPage
    (hrows : (r₁.contents.rows model.table).length = (r₂.contents.rows model.table).length) :
    (listPage spec page model r₁).map Symbol.erase =
      (listPage spec page model r₂).map Symbol.erase := by
  have hlines : ((r₁.contents.rows model.table).map fun row => (listRow
      (fieldsForPage page model.entity) (pageFor spec model.entity.name .detail)
        (rowToRecord model row.value)).map Symbol.erase) =
      (r₂.contents.rows model.table).map fun row => (listRow
        (fieldsForPage page model.entity) (pageFor spec model.entity.name .detail)
          (rowToRecord model row.value)).map Symbol.erase :=
    map_eq_of_const (fun _ _ => erase_listRow _ _ _ _) hrows
  simp only [listPage, map_erase_layout, List.map_append, map_erase_joinLines, List.map_map,
    Function.comp_def, hlines]

theorem erase_digits (n : Nat) : (digits n).map Symbol.erase = digits n := by
  simp only [digits, List.map_map, Function.comp_def, Symbol.erase]

theorem erase_transitionButton (id id' : Text) {counts counts' : List (String × Nat)}
    {transition : TransitionDef} (hcount : (counts.lookup transition.name).getD 0 =
      (counts'.lookup transition.name).getD 0) :
    (transitionButton model id counts transition).map Symbol.erase =
      (transitionButton model id' counts' transition).map Symbol.erase := by
  cases happroval : transition.approval <;>
    simp only [transitionButton, happroval, hcount, List.map_append, map_erase_html, erase_digits,
      List.map_cons, List.map_nil, Symbol.erase, Option.elim_none, Option.elim_some]

/-- The section of a workflow depends on its state and on the counts of its transitions. -/
theorem erase_workflowSection (id id' : Text) {row row' : Row}
    {counts counts' : List (String × Nat)} {workflow : WorkflowDef}
    (hstate : row (toSnakeCase workflow.stateField) = row' (toSnakeCase workflow.stateField))
    (hcounts : ∀ t ∈ workflow.transitions,
      (counts.lookup t.name).getD 0 = (counts'.lookup t.name).getD 0) :
    (workflowSection model id row counts workflow).map Symbol.erase =
      (workflowSection model id' row' counts' workflow).map Symbol.erase := by
  have hbuttons : ∀ ts : List TransitionDef, (∀ t ∈ ts, t ∈ workflow.transitions) →
      (joinLines (ts.map (transitionButton model id counts))).map Symbol.erase =
        (joinLines (ts.map (transitionButton model id' counts'))).map Symbol.erase := by
    intro ts hts
    rw [map_erase_joinLines, map_erase_joinLines, List.map_map, List.map_map]
    refine congrArg joinLines (List.map_congr_left fun t ht => ?_)
    exact erase_transitionButton id id' (hcounts t (hts t ht))
  have hblank : ∀ note buttons buttons' : List Symbol,
      buttons.map Symbol.erase = buttons'.map Symbol.erase →
      (if buttons = [] then note else buttons).map Symbol.erase =
        (if buttons' = [] then note else buttons').map Symbol.erase := by
    intro note buttons buttons' heq
    have hnil : buttons = [] ↔ buttons' = [] := by
      rw [← List.map_eq_nil_iff (f := Symbol.erase), heq, List.map_eq_nil_iff]
    rw [apply_ite (List.map Symbol.erase), apply_ite (List.map Symbol.erase), heq]
    simp only [hnil]
  unfold workflowSection
  rw [hstate, List.map_append, List.map_append, map_erase_html]
  rw [hblank _ _ _ (hbuttons _ fun t ht => (List.mem_filter.mp ht).1)]

theorem erase_detailPage (h : progress model r₁ = progress model r₂) :
    (detailPage page model r₁).toOption.map (List.map Symbol.erase) =
      (detailPage page model r₂).toOption.map (List.map Symbol.erase) := by
  have hmissing : ∀ {r : PageRequest}, progress model r = none →
      (detailPage page model r).toOption = none := by
    intro r hr
    unfold progress at hr
    unfold detailPage
    cases hid : r.id.filter isUuid with
    | none => rfl
    | some id =>
      cases hrow : r.contents.row model.table id with
      | none => simp [hrow, Except.toOption]
      | some row => simp [hid, hrow] at hr
  have hfound : ∀ {r : PageRequest} {shown}, progress model r = some shown →
      ∃ id row, r.id.filter isUuid = some id ∧ r.contents.row model.table id = some row ∧
        shown = model.workflows.map fun workflow =>
          (row.value (toSnakeCase workflow.stateField), workflow.transitions.map fun t =>
            ((approvalCounts (r.contents.approvals model.table id)).lookup t.name).getD 0) := by
    intro r shown hr
    unfold progress at hr
    cases hid : r.id.filter isUuid with
    | none => simp [hid] at hr
    | some id =>
      cases hrow : r.contents.row model.table id with
      | none => simp [hid, hrow] at hr
      | some row => exact ⟨id, row, rfl, hrow, by simpa [hid, hrow] using hr.symm⟩
  cases h₁ : progress model r₁ with
  | none => rw [hmissing h₁, hmissing (h.symm.trans h₁)]
  | some shown =>
    obtain ⟨id₁, row₁, hid₁, hrow₁, hshown₁⟩ := hfound h₁
    obtain ⟨id₂, row₂, hid₂, hrow₂, hshown₂⟩ := hfound (h.symm.trans h₁)
    rw [hshown₁] at hshown₂
    have hboth := List.map_inj_left.mp hshown₂
    have hsections : (model.workflows.map fun workflow =>
        (workflowSection model id₁ row₁.value (if model.workflows.any fun w =>
          w.transitions.any fun t => t.approval.isSome then
            approvalCounts (r₁.contents.approvals model.table id₁) else []) workflow).map
              Symbol.erase) =
        model.workflows.map fun workflow =>
        (workflowSection model id₂ row₂.value (if model.workflows.any fun w =>
          w.transitions.any fun t => t.approval.isSome then
            approvalCounts (r₂.contents.approvals model.table id₂) else []) workflow).map
              Symbol.erase := by
      apply List.map_congr_left
      intro workflow hw
      obtain ⟨hstate, hcounts⟩ := Prod.mk.inj (hboth workflow hw)
      apply erase_workflowSection id₁ id₂ hstate
      intro t ht
      split
      · exact List.map_inj_left.mp hcounts t ht
      · rfl
    unfold detailPage
    rw [hid₁, hid₂]
    simp only [hrow₁, hrow₂, Except.toOption, Option.map_some, map_erase_layout, List.map_append,
      map_erase_joinLines, List.map_map, Function.comp_def, hsections, map_erase_html, List.map_cons,
      List.map_nil, Symbol.erase]

theorem erase_select (field : FieldDef) {options options' : List Symbol}
    (h : options.map Symbol.erase = options'.map Symbol.erase) :
    (select field options).map Symbol.erase = (select field options').map Symbol.erase := by
  simp only [select, List.map_append, h]

theorem erase_control (field : FieldDef)
    (hrows : ∀ table, (r₁.contents.rows table).length = (r₂.contents.rows table).length) :
    (control spec r₁.contents field).toOption.map (List.map Symbol.erase) =
      (control spec r₂.contents field).toOption.map (List.map Symbol.erase) := by
  unfold control
  split
  · split
    · rfl
    · rename_i target htarget
      simp only [Except.toOption, Option.map_some, Option.some.injEq]
      apply erase_select
      rw [List.flatMap_def, List.flatMap_def, List.map_flatten, List.map_flatten, List.map_map,
        List.map_map]
      congr 1
      refine map_eq_of_const (fun _ _ => ?_) (hrows _)
      simp only [Function.comp_apply, referenceOption, map_erase_html, List.map_cons, List.map_nil,
        Symbol.erase]
  · rfl

theorem mapM_toOption_map {α β γ ε : Type} (xs : List α) (f : α → Except ε β) (g : β → γ) :
    (xs.mapM f).toOption.map (List.map g) = xs.mapM fun x => (f x).toOption.map g := by
  induction xs with
  | nil => rfl
  | cons x xs ih =>
    rw [List.mapM_cons, List.mapM_cons, ← ih]
    cases f x with
    | error e => rfl
    | ok y =>
      cases xs.mapM f with
      | error e => rfl
      | ok ys => rfl

theorem erase_formPage
    (hrows : ∀ table, (r₁.contents.rows table).length = (r₂.contents.rows table).length) :
    (formPage spec page model r₁).toOption.map (List.map Symbol.erase) =
      (formPage spec page model r₂).toOption.map (List.map Symbol.erase) := by
  have hlabelled : ∀ field (r : PageRequest),
      (do return labelled field (← control spec r.contents field) :
        Except RuntimeError (List Symbol)).toOption.map (List.map Symbol.erase) =
      ((control spec r.contents field).toOption.map (List.map Symbol.erase)).map fun control =>
        (labelled field []).map Symbol.erase ++ control := by
    intro field r
    cases control spec r.contents field with
    | error e => rfl
    | ok symbols =>
      simp only [bind, Except.bind, pure, Except.pure, Except.toOption, Option.map_some, labelled,
        List.map_append, List.append_nil]
  have hcontrols : ∀ fields : List FieldDef,
      (fields.mapM fun field => (do return labelled field (← control spec r₁.contents field) :
        Except RuntimeError (List Symbol))).toOption.map (List.map (List.map Symbol.erase)) =
      (fields.mapM fun field => (do return labelled field (← control spec r₂.contents field) :
        Except RuntimeError (List Symbol))).toOption.map (List.map (List.map Symbol.erase)) := by
    intro fields
    simp only [mapM_toOption_map, hlabelled, erase_control _ hrows]
  unfold formPage
  have heq := hcontrols ((fieldsForPage page model.entity).filter fun f =>
    !model.stateFields.any fun e => e.1 == f.name)
  simp only [bind, Except.bind, pure, Except.pure] at heq ⊢
  split
  all_goals
    rename_i h₁
    rw [h₁] at heq
    split
  all_goals
    rename_i h₂
    rw [h₂] at heq
  · rfl
  · exact absurd heq (by simp [Except.toOption])
  · exact absurd heq (by simp [Except.toOption])
  · simp only [Except.toOption, Option.map_some, Option.some.injEq] at heq
    simp only [Except.toOption, Option.map_some, map_erase_layout, List.map_append,
      map_erase_joinLines, heq]

/-- A run of a page and one of the same shape are answered alike, but for the values. -/
theorem erase_servePage (h : SameShape spec page r₁ r₂) :
    (servePage spec page r₁).toOption.map (List.map Symbol.erase) =
      (servePage spec page r₂).toOption.map (List.map Symbol.erase) := by
  unfold servePage
  cases hfound : spec.entityByName page.entity with
  | none => rfl
  | some entity =>
    cases htype : page.type with
    | list =>
      have hlist : (listPage spec page (buildEntityModel spec entity) r₁).map Symbol.erase =
          (listPage spec page (buildEntityModel spec entity) r₂).map Symbol.erase :=
        erase_listPage (h.rows _)
      simp only [Except.toOption, Option.map_some, hlist]
    | detail => exact erase_detailPage (h.progress htype entity hfound)
    | form => exact erase_formPage h.rows

theorem sound_of_index (h : spec.valid = true) (request : PageRequest) :
    Html.Sound (indexPage spec request) :=
  sound_indexPage (fun _ hp => zero_notMem_kebab (AppSpec.isKebabName_of_page h hp)) request

/-- Whatever a session and a database contain, the pages of a valid spec have the tags of their
templates, and every interpolated value is read as itself, in text or in an attribute value. -/
theorem pages_admit_no_injection (h : spec.valid = true) :
    (∀ r₁ r₂, SameTags (indexPage spec r₁) (indexPage spec r₂) ∧ ReadsBack (indexPage spec r₁)) ∧
      ∀ page ∈ spec.pages.getD [], ∀ r₁ r₂, SameShape spec page r₁ r₂ →
        ∀ p₁, servePage spec page r₁ = .ok p₁ →
          ∃ p₂, servePage spec page r₂ = .ok p₂ ∧ SameTags p₁ p₂ ∧ ReadsBack p₁ ∧ ReadsBack p₂ := by
  constructor
  · intro r₁ r₂
    have h₁ := sound_of_index h r₁
    exact ⟨sameTags_of_sound h₁ (sound_of_index h r₂) erase_indexPage, readsBack_of_sound h₁⟩
  · intro page _ r₁ r₂ hshape p₁ hserve₁
    have heq := erase_servePage hshape
    have h₁ := sound_servePage h hserve₁
    rw [hserve₁] at heq
    cases hserve₂ : servePage spec page r₂ with
    | error e => simp [hserve₂, Except.toOption] at heq
    | ok p₂ =>
      have h₂ := sound_servePage h hserve₂
      rw [hserve₂] at heq
      exact ⟨p₂, rfl, sameTags_of_sound h₁ h₂ (Option.some.inj heq), readsBack_of_sound h₁,
        readsBack_of_sound h₂⟩

end

def vendorDetail : PageDef where
  name := "vendor"
  type := .detail
  entity := "Vendor"

def vendorPages : AppSpec := { vendorApp with pages := some [vendorDetail] }

def vendorTexts (name : String) : List (String × SqlValue) :=
  [("id", .str (ofString vendorId)), ("name", .str (ofString name)),
    ("status", .str (ofString "draft")), ("risk", .str (ofString "open")),
    ("created_at", .date 0), ("updated_at", .date 0)]

def vendorRow (name : String) (h : 0 ∉ ofString name) : StoredRow where
  value column := (vendorTexts name).lookup column
  noNul column t hvalue := by
    have hmem : (column, SqlValue.str t) ∈ vendorTexts name := by
      obtain ⟨pre, post, hlist, -⟩ := List.lookup_eq_some_iff.mp hvalue
      simp [hlist]
    have hplain : ∀ s ∈ ["6f9619ff-8b86-4011-b42d-00cf4fc964ff", "draft", "open"],
        0 ∉ ofString s := by decide
    simp only [vendorTexts, vendorId, List.mem_cons, Prod.mk.injEq, SqlValue.str.injEq,
      reduceCtorEq, and_false, List.not_mem_nil, or_false] at hmem
    rcases hmem with ⟨-, rfl⟩ | ⟨-, rfl⟩ | ⟨-, rfl⟩ | ⟨-, rfl⟩
    · exact hplain _ (by simp)
    · exact h
    · exact hplain _ (by simp)
    · exact hplain _ (by simp)

/-- One vendor is stored, and its page is asked for. -/
def vendorRequest (name : String) (h : 0 ∉ ofString name) : PageRequest where
  session := some { sub := ofString name }
  id := some (ofString vendorId)
  contents :=
    { rows := fun _ => [vendorRow name h]
      row := fun _ _ => some (vendorRow name h)
      approvals := fun _ _ => [("approve", "ada")] }

theorem pages_admit_no_injection_vendor :
    ∃ p₁ p₂,
      servePage vendorPages vendorDetail (vendorRequest "<script>" (by decide)) = .ok p₁ ∧
      servePage vendorPages vendorDetail (vendorRequest "\" x=\"&amp;" (by decide)) =
        .ok p₂ ∧
      SameTags p₁ p₂ ∧ ReadsBack p₁ ∧ ReadsBack p₂ := by
  have hvalid : vendorPages.valid = true := by decide
  have hshape : SameShape vendorPages vendorDetail (vendorRequest "<script>" (by decide))
      (vendorRequest "\" x=\"&amp;" (by decide)) := by
    refine ⟨fun _ => rfl, fun _ entity hfound => ?_⟩
    obtain rfl : vendor = entity := Option.some.inj hfound
    decide
  have hserved : (servePage vendorPages vendorDetail
      (vendorRequest "<script>" (by decide))).toOption.isSome = true := by decide +kernel
  cases hserve : servePage vendorPages vendorDetail
      (vendorRequest "<script>" (by decide)) with
  | error e => simp [hserve, Except.toOption] at hserved
  | ok p₁ =>
    obtain ⟨p₂, h₂, htags⟩ := (pages_admit_no_injection hvalid).2 vendorDetail
      (by simp [vendorPages]) _ _ hshape p₁ hserve
    exact ⟨p₁, p₂, rfl, h₂, htags⟩

end OpenRupiv.Runtime
