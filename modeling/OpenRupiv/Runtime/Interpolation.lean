import OpenRupiv.Compiler.Names
import OpenRupiv.Runtime.Pages
import OpenRupiv.Spec.Facts

/-!
# Values stay in their places

Whatever a session and a database contain, the pages are read as the tags of their templates, and
every value that is interpolated is read as itself, in text or in an attribute value.
-/

namespace OpenRupiv.Runtime

open Js Spec Html

theorem zero_notMem_ofString {s : String} (h : ∀ c ∈ s.toList, c ≠ Char.ofNat 0) :
    0 ∉ ofString s :=
  fun hmem => h _ (char_mem_of_mem_ofString (by decide) hmem) rfl

theorem zero_notMem_kebab {s : String} (h : isKebabName s = true) : 0 ∉ ofString s := by
  apply zero_notMem_ofString
  rintro c hc rfl
  rcases mem_of_isKebabName h hc with heq | hlower
  · exact absurd heq (by decide)
  · exact absurd hlower (by decide)

theorem zero_notMem_name {s : String} (h : IsName s) : 0 ∉ ofString s := by
  obtain ⟨first, rest, hlist, hfirst, hrest⟩ := h
  apply zero_notMem_ofString
  rw [hlist]
  rintro c hc rfl
  rcases List.mem_cons.mp hc with rfl | hc
  · exact absurd hfirst (by decide)
  · exact absurd (hrest _ hc) (by decide)

theorem zero_notMem_segment {name : String} (h : IsName name) :
    0 ∉ ofString (entityApiSegment name) := by
  apply zero_notMem_ofString
  rintro c hc rfl
  rcases mem_entityApiSegment h hc with heq | hlower
  · exact absurd heq (by decide)
  · exact absurd hlower (by decide)

theorem zero_notMem_valueName {s : String} (h : isValueName s = true) : 0 ∉ ofString s := by
  apply zero_notMem_ofString
  rintro c hc rfl
  rcases mem_of_isValueName h hc with heq | hlower
  · exact absurd heq (by decide)
  · exact absurd hlower (by decide)

theorem zero_notMem_uuid {id : Text} (h : isUuid id = true) : 0 ∉ id := by
  intro hmem
  rcases mem_of_isUuid h hmem with heq | hhex
  · exact absurd heq (by decide)
  · exact absurd hhex (by decide)

theorem zero_notMem_print (n : Num) : 0 ∉ n.print := by
  cases hn : n.isFinite with
  | true =>
    intro hmem
    exact absurd (isNumUnit_of_mem_print hn hmem) (by decide)
  | false =>
    cases n with
    | infinite neg => cases neg <;> decide
    | zero neg => simp [Num.isFinite] at hn
    | finite d => simp [Num.isFinite] at hn

theorem zero_notMem_toISOString (ms : Int) : 0 ∉ toISOString ms := by
  have hpad : ∀ w n, 0 ∉ pad w n := by
    intro w n hmem
    have hdigit : ∀ d : Digit, digitUnit d ≠ 0 := by decide
    obtain ⟨d, -, hd⟩ := List.mem_map.mp hmem
    exact hdigit d hd
  have hyear : ∀ y, 0 ∉ yearText y := by
    intro y
    have hsign : ∀ b : Bool, 0 ∉ ofString (if b then "-" else "+") := by decide
    unfold yearText
    split
    · exact hpad _ _
    · rw [List.mem_append, not_or]
      exact ⟨by simpa using hsign (Decidable.decide (y < 0)), hpad _ _⟩
  have hmark : ∀ s ∈ ["-", "T", ":", ".", "Z"], 0 ∉ ofString s := by decide
  simp only [toISOString, List.mem_append, hpad, hyear, hmark "-" (by simp), hmark "T" (by simp),
    hmark ":" (by simp), hmark "." (by simp), hmark "Z" (by simp), or_self, not_false_eq_true]

theorem zero_notMem_shown {v : Option SqlValue} (h : ∀ t, v = some (.str t) → 0 ∉ t) :
    0 ∉ shown v := by
  cases v with
  | none => simp [shown]
  | some v =>
    cases v with
    | null => simp [shown]
    | str t => exact h t rfl
    | num n => exact zero_notMem_print n
    | bool b => cases b <;> decide
    | date ms => exact zero_notMem_toISOString ms

theorem zero_notMem_valueOf (model : EntityModel) (row : StoredRow) (name : String) :
    0 ∉ valueOf (rowToRecord model row.value) name := by
  apply zero_notMem_shown
  intro t ht
  have hmem : (name, SqlValue.str t) ∈ rowToRecord model row.value := by
    obtain ⟨pre, post, hlist, -⟩ := List.lookup_eq_some_iff.mp ht
    simp [hlist]
  have hnormal : ∀ v : Option SqlValue, (∀ t, v = some (.str t) → 0 ∉ t) →
      normalizeValue v = .str t → 0 ∉ t := by
    intro v hv heq
    cases v with
    | none => exact absurd heq (by simp [normalizeValue])
    | some v =>
      cases v with
      | date ms =>
        obtain rfl := SqlValue.str.inj heq
        exact zero_notMem_toISOString ms
      | str s =>
        obtain rfl := SqlValue.str.inj heq
        exact hv s rfl
      | _ => exact absurd heq (by simp [normalizeValue])
  have hentry := mem_newMap hmem
  simp only [List.mem_append, List.mem_cons, List.mem_map, List.not_mem_nil, or_false,
    Prod.mk.injEq] at hentry
  rcases hentry with (⟨-, hid⟩ | ⟨field, -, -, hfield⟩) | ⟨-, htime⟩ | ⟨-, htime⟩
  · cases hcolumn : row.value "id" with
    | none => simp [hcolumn] at hid
    | some v =>
      rw [hcolumn, Option.getD_some] at hid
      exact row.noNul "id" t (by rw [hcolumn, hid])
  · exact hnormal _ (row.noNul _) hfield
  · exact hnormal _ (row.noNul _) htime.symm
  · exact hnormal _ (row.noNul _) htime.symm

theorem escapeHtml_eq (t : Text) : escapeHtml t = escapeText t := by
  have hunit : ∀ u : UInt16, escapeHtml [u] = escapeUnit u := by
    intro u
    unfold escapeUnit
    split
    · subst u
      decide
    split
    · subst u
      decide
    split
    · subst u
      decide
    split
    · subst u
      decide
    split
    · subst u
      decide
    rename_i hamp hlt hgt hquot hapos
    simp [escapeHtml, replaceUnit, hamp, hlt, hgt, hquot, hapos]
  have happend : ∀ s t : Text, escapeHtml (s ++ t) = escapeHtml s ++ escapeHtml t := by
    intro s t
    simp only [escapeHtml, replaceUnit, List.flatMap_append]
  induction t with
  | nil => rfl
  | cons u t ih =>
    rw [escapeText, List.flatMap_cons, ← hunit, ← List.singleton_append, happend, ih]
    rfl

theorem render_eq (page : List Symbol) : render page = page.flatMap write := by
  apply List.flatMap_congr
  intro a _
  cases a with
  | unit u => rfl
  | text t => exact escapeHtml_eq t
  | quoted t => exact escapeHtml_eq t

set_option maxRecDepth 8000 in
theorem sound_layout (title : Text) (user : Option PageUser) {body : List Symbol}
    (h : Html.Sound body) : Html.Sound (layout title user body) := by
  unfold layout
  refine .of_closes
    (a := (closes _ = true ∧ closes _ = true) ∧ closes _ = true ∧ closes _ = true) (fun hcloses =>
    ((((Html.Sound.html [.text []] rfl hcloses.1.1 (by simp [Fits])).append
      (.html [] rfl hcloses.1.2 (by simp))).append
      (.html [.text []] rfl hcloses.2.1 (by simp [Fits]))).append h).append
      (.html [] rfl hcloses.2.2 (by simp))) ?_
  simp only [html, ofString, PAGE_STYLE]
  repeat rw [String.toList_ofList]
  decide

theorem sound_joinLines {parts : List (List Symbol)} (h : ∀ part ∈ parts, Html.Sound part) :
    Html.Sound (joinLines parts) := by
  have hbreak : Html.Sound (html ["\n"] []) := .html [] rfl (by decide) (by simp)
  exact .intercalate hbreak h

theorem sound_digits (n : Nat) : Html.Sound (digits n) := by
  have hfinite : (Num.ofDouble n).isFinite = true := by
    unfold Num.ofDouble Num.ofInt
    split <;> rfl
  have hmarks : isNumUnit (unit '<') = false ∧ isNumUnit (unit '&') = false := by decide
  apply Html.Sound.units
  intro u hu
  have hnum := isNumUnit_of_mem_print hfinite hu
  constructor
  · rintro rfl
    exact absurd hnum (by simp [hmarks])
  · rintro rfl
    exact absurd hnum (by simp [hmarks])

section

variable {spec : AppSpec} {page : PageDef} {model : EntityModel}

theorem sound_indexItem (h : 0 ∉ ofString page.name) : Html.Sound (indexItem page) := by
  refine .html [.quoted [], .text [], .text [], .text []] rfl ?_ (by simp [Fits, h])
  simp only [html, ofString]
  repeat rw [String.toList_ofList]
  decide

theorem sound_listRow {fields : List FieldDef} {detail : Option PageDef}
    (h : ∀ page, detail = some page → 0 ∉ ofString page.name) (row : StoredRow) :
    Html.Sound (listRow fields detail (rowToRecord model row.value)) := by
  have hlink : Html.Sound (detail.elim [] fun detail =>
      html ["<td><a href=\"/p/", "?id=", "\">view</a></td>"]
        [.quoted (ofString detail.name), .quoted (valueOf (rowToRecord model row.value) "id")]) := by
    cases detail with
    | none => exact .nil
    | some page =>
      have hname := h page rfl
      have hid := zero_notMem_valueOf model row "id"
      exact .html [.quoted [], .quoted []] rfl (by decide) (by simp [Fits, hname, hid])
  unfold listRow
  refine .of_closes (a := closes _ = true ∧ closes _ = true ∧ closes _ = true) (fun hcloses =>
    (((Html.Sound.html [] rfl hcloses.1 (by simp)).append
      (.flatMap fun f _ => .html [.text []] rfl hcloses.2.1 (by simp [Fits]))).append hlink).append
      (.html [] rfl hcloses.2.2 (by simp))) ?_
  decide

theorem sound_listPage (hpages : ∀ page ∈ spec.pages.getD [], 0 ∉ ofString page.name)
    (request : PageRequest) : Html.Sound (listPage spec page model request) := by
  have hpageFor : ∀ type found, pageFor spec model.entity.name type = some found →
      0 ∉ ofString found.name := by
    intro type found hfound
    exact hpages found (List.mem_of_find?_eq_some hfound)
  have hrows : ∀ part ∈ ((request.contents.rows model.table).map fun row =>
      rowToRecord model row.value).map (listRow (fieldsForPage page model.entity)
        (pageFor spec model.entity.name .detail)), Html.Sound part := by
    intro part hpart
    rw [List.map_map] at hpart
    obtain ⟨row, -, rfl⟩ := List.mem_map.mp hpart
    exact sound_listRow (hpageFor .detail) row
  have hempty : closes (html ["<th></th>"] []) = true → Html.Sound (if
      (pageFor spec model.entity.name .detail).isSome then html ["<th></th>"] [] else []) := by
    intro hcloses
    split
    · exact .html [] rfl hcloses (by simp)
    · exact .nil
  have hnew : Html.Sound ((pageFor spec model.entity.name .form).elim [] fun form =>
      html ["<p><a href=\"/p/", "\">New ", "</a></p>"]
        [.quoted (ofString form.name), .text (ofString model.entity.name)]) := by
    cases hform : pageFor spec model.entity.name .form with
    | none => exact .nil
    | some form =>
      have hname := hpageFor .form form hform
      exact .html [.quoted [], .text []] rfl (by decide) (by simp [Fits, hname])
  unfold listPage
  apply sound_layout
  refine .of_closes (a := (closes _ = true ∧ closes _ = true ∧ closes _ = true) ∧ closes _ = true ∧
      closes _ = true ∧ closes _ = true) (fun hcloses =>
    (((((((Html.Sound.html [.text []] rfl hcloses.1.1 (by simp [Fits])).append hnew).append
      (.html [] rfl hcloses.1.2.1 (by simp))).append
      (.flatMap fun f _ => .html [.text []] rfl hcloses.1.2.2 (by simp [Fits]))).append
      (hempty hcloses.2.1)).append (.html [] rfl hcloses.2.2.1 (by simp))).append
      (sound_joinLines hrows)).append (.html [] rfl hcloses.2.2.2 (by simp))) ?_
  simp only [html, ofString]
  repeat rw [String.toList_ofList]
  decide

theorem sound_indexPage (hpages : ∀ page ∈ spec.pages.getD [], 0 ∉ ofString page.name)
    (request : PageRequest) : Html.Sound (indexPage spec request) := by
  have hitems : ∀ part ∈ (spec.pages.getD []).map indexItem, Html.Sound part := by
    intro part hpart
    obtain ⟨page, hpage, rfl⟩ := List.mem_map.mp hpart
    exact sound_indexItem (hpages page hpage)
  unfold indexPage
  apply sound_layout
  refine .of_closes (a := closes _ = true ∧ closes _ = true) (fun hcloses =>
    ((Html.Sound.html [.text [], .text []] rfl hcloses.1 (by simp [Fits])).append
      (sound_joinLines hitems)).append (.html [] rfl hcloses.2 (by simp))) ?_
  simp only [html, ofString]
  repeat rw [String.toList_ofList]
  decide

set_option maxRecDepth 8000 in
theorem sound_transitionButton (hsegment : 0 ∉ ofString model.apiSegment) {id : Text}
    (hid : 0 ∉ id) {counts : List (String × Nat)} {transition : TransitionDef}
    (hname : 0 ∉ ofString transition.name) :
    Html.Sound (transitionButton model id counts transition) := by
  refine .append (.html [.quoted [], .quoted [], .quoted [], .text []] rfl ?_
    (by simp [Fits, hsegment, hid, hname])) ?_
  · simp only [html, ofString]
    repeat rw [String.toList_ofList]
    decide
  · cases transition.approval with
    | none => exact .nil
    | some approval =>
      refine .of_closes (a := closes _ = true ∧ closes _ = true ∧ closes _ = true) (fun hcloses =>
        ((((Html.Sound.html [] rfl hcloses.1 (by simp)).append (sound_digits _)).append
          (.html [] rfl hcloses.2.1 (by simp))).append (sound_digits _)).append
          (.html [] rfl hcloses.2.2 (by simp))) ?_
      decide

theorem sound_workflowSection (hsegment : 0 ∉ ofString model.apiSegment) {id : Text}
    (hid : 0 ∉ id) (row : Row) (counts : List (String × Nat)) {workflow : WorkflowDef}
    (hnames : ∀ transition ∈ workflow.transitions, 0 ∉ ofString transition.name) :
    Html.Sound (workflowSection model id row counts workflow) := by
  have hbuttons : ∀ part ∈ (workflow.transitions.filter fun t =>
      row (toSnakeCase workflow.stateField) = some (.str (ofString t.from))).map
        (transitionButton model id counts), Html.Sound part := by
    intro part hpart
    obtain ⟨transition, ht, rfl⟩ := List.mem_map.mp hpart
    exact sound_transitionButton hsegment hid (hnames transition (List.mem_filter.mp ht).1)
  unfold workflowSection
  refine .append (.html [.text [], .text []] rfl ?_ (by simp [Fits])) ?_
  · simp only [html, ofString]
    repeat rw [String.toList_ofList]
    decide
  · split
    · refine .html [] rfl ?_ (by simp)
      simp only [html, ofString]
      repeat rw [String.toList_ofList]
      decide
    · exact sound_joinLines hbuttons

theorem sound_detailPage (hsegment : 0 ∉ ofString model.apiSegment)
    (hnames : ∀ workflow ∈ model.workflows, ∀ transition ∈ workflow.transitions,
      0 ∉ ofString transition.name) {request : PageRequest} {symbols : List Symbol}
    (h : detailPage page model request = .ok symbols) : Html.Sound symbols := by
  unfold detailPage at h
  cases hid : request.id.filter isUuid with
  | none => simp [hid] at h
  | some id =>
    have hzero := zero_notMem_uuid (Option.filter_eq_some_iff.mp hid).2
    simp only [hid] at h
    cases hrow : request.contents.row model.table id with
    | none => simp [hrow] at h
    | some row =>
      simp only [hrow] at h
      obtain rfl := Except.ok.inj h
      apply sound_layout
      have hdetail : closes (html ["<dt>", "</dt><dd>", "</dd>"] [.text [], .text []]) = true →
          ∀ part ∈ (fieldsForPage page model.entity).map (fun f =>
            html ["<dt>", "</dt><dd>", "</dd>"]
              [.text (ofString f.name), .text (valueOf (rowToRecord model row.value) f.name)]),
            Html.Sound part := by
        intro hcloses part hpart
        obtain ⟨field, -, rfl⟩ := List.mem_map.mp hpart
        exact .html [.text [], .text []] rfl hcloses (by simp [Fits])
      refine .of_closes (a := closes _ = true ∧ closes _ = true ∧ closes _ = true) (fun hcloses =>
        (((Html.Sound.html [.text []] rfl hcloses.1 (by simp [Fits])).append
          (sound_joinLines (hdetail hcloses.2.1))).append
          (.html [] rfl hcloses.2.2 (by simp))).append (sound_joinLines ?_)) ?_
      · intro part hpart
        obtain ⟨workflow, hw, rfl⟩ := List.mem_map.mp hpart
        exact sound_workflowSection hsegment hzero row.value _ (hnames workflow hw)
      · simp only [html, ofString]
        repeat rw [String.toList_ofList]
        decide

theorem requiredText_cases (field : FieldDef) :
    requiredText field = "" ∨ requiredText field = " required" := by
  unfold requiredText
  split
  · exact .inr rfl
  · exact .inl rfl

theorem sound_select {field : FieldDef} (hname : 0 ∉ ofString field.name) {options : List Symbol}
    (h : Html.Sound options) : Html.Sound (select field options) := by
  have hcloses : ∀ required ∈ ["", " required"],
      closes (html ["<select id=\"", "\" name=\"", "\"" ++ required ++ ">"]
        [.quoted [], .quoted []]) = true ∧
      closes (html ["<option value=\"\"></option>"] []) = true ∧
      closes (html ["</select>"] []) = true := by decide
  obtain ⟨hopening, hblank, hclosing⟩ := hcloses (requiredText field)
    (by simpa using requiredText_cases field)
  have hoption : Html.Sound (blankOption field) := by
    unfold blankOption
    split
    · exact .nil
    · exact .html [] rfl hblank (by simp)
  exact (((Html.Sound.html _ rfl hopening (by simp [Fits, hname])).append hoption).append h).append
    (.html _ rfl hclosing (by simp))

set_option maxRecDepth 8000 in
theorem closes_inputFor (field : FieldDef) (h : field.type ≠ .enum) :
    closes (inputFor field) = true := by
  have hall : ∀ type ∈ [FieldType.string, .text, .number, .boolean, .date, .datetime, .reference],
      ∀ required ∈ [none, some true],
        closes (inputFor { name := "", type, required }) = true := by decide
  have heq : ∀ required, requiredText field = requiredText { name := "", type := .text, required } →
      (inputFor field).map Symbol.erase =
        (inputFor { name := "", type := field.type, required }).map Symbol.erase := by
    intro required hrequired
    have hother : ∀ type, requiredText { name := "", type, required } = requiredText field := by
      intro type
      rw [hrequired]
      rfl
    unfold inputFor
    rw [hother]
    cases htype : field.type with
    | enum => exact absurd htype h
    | _ => simp only [map_erase_html, List.map_cons, List.map_nil, Symbol.erase]
  have htype : field.type ∈ [FieldType.string, .text, .number, .boolean, .date, .datetime,
      .reference] := by
    cases htype : field.type with
    | enum => exact absurd htype h
    | _ => simp
  rcases requiredText_cases field with hrequired | hrequired
  · rw [← closes_erase, heq none hrequired, closes_erase]
    exact hall _ htype _ (by simp)
  · rw [← closes_erase, heq (some true) hrequired, closes_erase]
    exact hall _ htype _ (by simp)

theorem sound_inputFor {field : FieldDef} (hname : 0 ∉ ofString field.name)
    (hvalues : ∀ v ∈ field.values.getD [], 0 ∉ ofString v) : Html.Sound (inputFor field) := by
  by_cases henum : field.type = .enum
  · have hcloses : ∀ selected ∈ ["", " selected"],
        closes (html ["<option value=\"", "\"" ++ selected ++ ">", "</option>"]
          [.quoted [], .text []]) = true := by decide
    have hoption : ∀ v ∈ field.values.getD [], Html.Sound (enumOption field v) := by
      intro v hv
      refine .html _ rfl (hcloses _ ?_) (by simp [Fits, hvalues v hv])
      split <;> simp
    unfold inputFor
    rw [henum]
    exact sound_select hname (.flatMap hoption)
  · refine ⟨closes_inputFor field henum, ?_⟩
    unfold inputFor
    cases htype : field.type with
    | enum => exact absurd htype henum
    | _ => exact Html.Sound.fits_html (by simp [Fits, hname])

theorem sound_control {field : FieldDef} (hname : 0 ∉ ofString field.name)
    (hvalues : ∀ v ∈ field.values.getD [], 0 ∉ ofString v) {contents : PageContents}
    {symbols : List Symbol} (h : control spec contents field = .ok symbols) : Html.Sound symbols := by
  unfold control at h
  split at h
  · split at h
    · exact absurd h (by simp)
    · rename_i target htarget
      obtain rfl := Except.ok.inj h
      refine sound_select hname (.flatMap fun row _ => ?_)
      have hid := zero_notMem_valueOf (buildEntityModel spec target) row "id"
      unfold valueOf at hid
      exact .html [.quoted [], .text []] rfl (by decide) (by simp [Fits, hid])
  · obtain rfl := Except.ok.inj h
    exact sound_inputFor hname hvalues

theorem mem_of_mapM_ok {α β ε : Type} {xs : List α} {f : α → Except ε β} {ys : List β}
    (h : xs.mapM f = .ok ys) : ∀ y ∈ ys, ∃ x ∈ xs, f x = .ok y := by
  induction xs generalizing ys with
  | nil =>
    obtain rfl := Except.ok.inj h
    exact fun y hy => absurd hy List.not_mem_nil
  | cons x xs ih =>
    rw [List.mapM_cons] at h
    cases hx : f x with
    | error e => simp [hx, bind, Except.bind] at h
    | ok z =>
      cases hrest : xs.mapM f with
      | error e => simp [hx, hrest, bind, Except.bind] at h
      | ok zs =>
        simp only [hx, hrest, bind, Except.bind, pure, Except.pure, Except.ok.injEq] at h
        subst h
        intro y hy
        rcases List.mem_cons.mp hy with rfl | hy
        · exact ⟨x, by simp, hx⟩
        · obtain ⟨w, hw, heq⟩ := ih hrest y hy
          exact ⟨w, by simp [hw], heq⟩

theorem mem_fieldsForPage {entity : EntityDef} {field : FieldDef}
    (h : field ∈ fieldsForPage page entity) : field ∈ entity.fields := by
  unfold fieldsForPage at h
  cases hfields : page.fields with
  | none => simpa [hfields] using h
  | some names =>
    simp only [hfields] at h
    obtain ⟨name, -, hlookup⟩ := List.mem_filterMap.mp h
    have hmem : (name, field) ∈ newMap (entity.fields.map fun f => (f.name, f)) := by
      obtain ⟨pre, post, hlist, -⟩ := List.lookup_eq_some_iff.mp hlookup
      simp [hlist]
    obtain ⟨found, hfound, heq⟩ := List.mem_map.mp (mem_newMap hmem)
    obtain ⟨-, rfl⟩ := Prod.mk.inj heq
    exact hfound

theorem sound_formPage (hsegment : 0 ∉ ofString model.apiSegment)
    (hfields : ∀ field ∈ model.entity.fields, 0 ∉ ofString field.name ∧
      ∀ v ∈ field.values.getD [], 0 ∉ ofString v) {request : PageRequest} {symbols : List Symbol}
    (h : formPage spec page model request = .ok symbols) : Html.Sound symbols := by
  unfold formPage at h
  simp only [bind, Except.bind, pure, Except.pure] at h
  split at h
  · exact absurd h (by simp)
  · rename_i controls hcontrols
    obtain rfl := Except.ok.inj h
    apply sound_layout
    refine .of_closes (a := closes _ = true ∧ closes _ = true) (fun hcloses =>
      ((Html.Sound.html [.text [], .quoted []] rfl hcloses.1 (by simp [Fits, hsegment])).append
        (sound_joinLines ?_)).append (.html [] rfl hcloses.2 (by simp))) ?_
    · intro part hpart
      obtain ⟨field, hfield, hpart⟩ := mem_of_mapM_ok hcontrols part hpart
      have hmem := mem_fieldsForPage (List.mem_filter.mp hfield).1
      obtain ⟨hname, hvalues⟩ := hfields field hmem
      split at hpart
      · exact absurd hpart (by simp)
      · rename_i symbols hsymbols
        obtain rfl := Except.ok.inj hpart
        refine .append (.html [.quoted [], .text []] rfl ?_ (by simp [Fits, hname]))
          (sound_control hname hvalues hsymbols)
        decide
    · decide

/-- Every page of a valid spec is sound, whatever the session and the database contain. -/
theorem sound_servePage (h : spec.valid = true)
    {request : PageRequest} {symbols : List Symbol}
    (hserve : servePage spec page request = .ok symbols) : Html.Sound symbols := by
  unfold servePage at hserve
  cases hfound : spec.entityByName page.entity with
  | none => simp [hfound] at hserve
  | some entity =>
    have he : entity ∈ spec.entities := List.mem_of_find?_eq_some hfound
    have hsegment : 0 ∉ ofString (buildEntityModel spec entity).apiSegment :=
      zero_notMem_segment (isName_of_isEntityName (AppSpec.isEntityName_of_mem h he))
    have hpages : ∀ page ∈ spec.pages.getD [], 0 ∉ ofString page.name :=
      fun page hp => zero_notMem_kebab (AppSpec.isKebabName_of_page h hp)
    simp only [hfound] at hserve
    cases htype : page.type with
    | list =>
      simp only [htype] at hserve
      obtain rfl := Except.ok.inj hserve
      exact sound_listPage hpages request
    | detail =>
      simp only [htype] at hserve
      refine sound_detailPage hsegment (fun workflow hw transition ht => ?_) hserve
      have hw' : workflow ∈ spec.workflows.getD [] := (List.mem_filter.mp hw).1
      exact zero_notMem_kebab (AppSpec.isKebabName_of_transition h hw' ht)
    | form =>
      simp only [htype] at hserve
      refine sound_formPage hsegment (fun field hf => ⟨?_, fun v hv => ?_⟩) hserve
      · exact zero_notMem_name (isName_of_isMemberName (AppSpec.isMemberName_of_mem h he hf))
      · have hconforms := AppSpec.field_conforms h he hf
        simp only [FieldDef.conforms, Bool.and_eq_true] at hconforms
        cases hvalues : field.values with
        | none => simp [hvalues] at hv
        | some values =>
          rw [hvalues, Option.getD_some] at hv
          have hnames := hconforms.1.1.2
          rw [hvalues, Option.all_some, distinctNames, Bool.and_eq_true, List.all_eq_true] at hnames
          exact zero_notMem_valueName (hnames.2 v hv)

end

end OpenRupiv.Runtime
