import OpenRupiv.Compiler.Rewrites
import OpenRupiv.Runtime.Registration

/-!
# The routes of the emitted README

`renderRoutes` of `packages/compiler/src/app-readme.ts`: a table of the routes that the app serves.
`readRow` reads a row of such a table back, so that the documented routes are those of the text.
-/

namespace OpenRupiv.Compiler

open Spec OpenRupiv.Runtime

def Method.print : Method → String
  | .GET => "GET"
  | .POST => "POST"
  | .PUT => "PUT"

def routeRow (method : Method) (path purpose : String) : String :=
  "| " ++ Method.print method ++ " | `" ++ path ++ "` | " ++ purpose ++ " |"

def entityRows (entity : EntityDef) : List String :=
  let base := "/api/" ++ kebabCase entity.name
  [routeRow .GET base ("List " ++ entity.name ++ " records"),
    routeRow .POST base ("Create a " ++ entity.name),
    routeRow .GET (base ++ "/:id") ("Fetch one " ++ entity.name),
    routeRow .PUT (base ++ "/:id") ("Update a " ++ entity.name)]

def transitionRows (workflow : WorkflowDef) : List String :=
  let base := "/api/" ++ kebabCase workflow.entity
  workflow.transitions.map fun transition =>
    routeRow .POST (base ++ "/:id/transitions/" ++ transition.name)
      ("Fire `" ++ transition.name ++ "` (" ++ transition.from ++ " → " ++ transition.to ++ ")")

def pageRow (page : PageDef) : String :=
  routeRow .GET ("/p/" ++ page.name)
    ("Page `" ++ page.name ++ "` (" ++ page.type.print ++ " of " ++ page.entity ++ ")")

/-- The routes that do not depend on the spec. -/
def fixedRows : List String :=
  [routeRow .GET "/healthz" "Liveness probe (no auth)",
    routeRow .GET "/auth/login" "Start OIDC login (Authorization Code + PKCE)",
    routeRow .GET "/auth/callback" "OIDC redirect target; establishes the session",
    routeRow .POST "/auth/logout" "Destroy the session",
    routeRow .GET "/" "Index of pages"]

def routesIntro : List String :=
  ["Served by `@openrupiv/runtime`. Every route requires an authenticated OIDC",
    "session except `/healthz`, `/auth/login`, and `/auth/callback`. There is no",
    "DELETE in v0. Workflow state fields cannot be written through create/update.",
    "",
    "| Method | Path | Purpose |",
    "|---|---|---|"]

def transitionNotes : List String :=
  ["Transition endpoints respond `\x7b \"status\": \"pending\", \"approvals\": k, \"required\": n \x7d`",
    "while approvals are outstanding and `\x7b \"status\": \"transitioned\", \"state\": \"<to>\" \x7d` on",
    "completion. Failures: 403 `ERR_FORBIDDEN_ROLE`; 409 `ERR_BAD_STATE`,",
    "`ERR_GUARD_FAILED`, or `ERR_DUPLICATE_APPROVER` (the same user may not",
    "approve twice — approvals must come from distinct authenticated users).",
    ""]

def renderRoutes (spec : AppSpec) : List String :=
  routesIntro ++ fixedRows ++ spec.entities.flatMap entityRows ++
    (spec.workflows.getD []).flatMap transitionRows ++ (spec.pages.getD []).map pageRow ++ [""] ++
    if spec.workflows.getD [] ≠ [] then transitionNotes else []

def backtick : Char := Char.ofNat 96

def readMethod (cell : List Char) : Option Method :=
  [Method.GET, .POST, .PUT].find? fun method => cell = ("| " ++ Method.print method ++ " | ").toList

/-- The method and the path of a row: what stands before the first backtick and up to the next. -/
def readRow (line : String) : Option Route :=
  let rest := (line.toList.dropWhile (· ≠ backtick)).tail
  (readMethod (line.toList.takeWhile (· ≠ backtick))).map fun method =>
    ⟨method, String.ofList (rest.takeWhile (· ≠ backtick))⟩

def documentedRoutes (spec : AppSpec) : List Route := (renderRoutes spec).filterMap readRow

/-- Served for every spec, by `server.ts` and `auth.ts`. -/
def serverRoutes : List Route :=
  [⟨.GET, "/healthz"⟩, ⟨.GET, "/auth/login"⟩, ⟨.GET, "/auth/callback"⟩, ⟨.POST, "/auth/logout"⟩]

private theorem takeWhile_mark {α : Type} [DecidableEq α] {mark : α} {front back : List α}
    (h : mark ∉ front) : (front ++ mark :: back).takeWhile (· ≠ mark) = front ∧
      (front ++ mark :: back).dropWhile (· ≠ mark) = mark :: back := by
  have hfront : ∀ c ∈ front, decide (c ≠ mark) = true := by
    intro c hc
    have hne : c ≠ mark := fun heq => h (heq ▸ hc)
    simp [hne]
  constructor
  · rw [List.takeWhile_append_of_pos hfront, List.takeWhile_cons_of_neg (by simp), List.append_nil]
  · rw [List.dropWhile_append_of_pos hfront, List.dropWhile_cons_of_neg (by simp)]

theorem readRow_routeRow {method : Method} {path : String} (purpose : String)
    (h : backtick ∉ path.toList) : readRow (routeRow method path purpose) = some ⟨method, path⟩ := by
  have hmethod : backtick ∉ ("| " ++ Method.print method ++ " | ").toList := by
    cases method <;> decide
  have hread : readMethod ("| " ++ Method.print method ++ " | ").toList = some method := by
    cases method <;> decide
  have hrow : (routeRow method path purpose).toList =
      ("| " ++ Method.print method ++ " | ").toList ++
        backtick :: (path.toList ++ backtick :: (" | " ++ purpose ++ " |").toList) := by
    have hopen : " | `".toList = " | ".toList ++ [backtick] := by decide
    have hclose : "` | ".toList = backtick :: " | ".toList := by decide
    simp only [routeRow, String.toList_append, hopen, hclose, List.append_assoc, List.cons_append,
      List.nil_append]
  obtain ⟨hhead, htail⟩ := @takeWhile_mark _ _ backtick _
    (path.toList ++ backtick :: (" | " ++ purpose ++ " |").toList) hmethod
  rw [readRow, hrow, hhead, htail, hread, List.tail_cons, (takeWhile_mark h).1, String.ofList_toList]
  rfl

theorem routesIntro_unread : routesIntro.filterMap readRow = [] := by decide

theorem transitionNotes_unread : transitionNotes.filterMap readRow = [] := by decide

theorem fixedRows_read : fixedRows.filterMap readRow = serverRoutes ++ [⟨.GET, "/"⟩] := by decide

private theorem filterMap_map_eq {α β γ : Type} {f : β → Option γ} {g : α → β} {h : α → γ}
    {xs : List α} (hf : ∀ x ∈ xs, f (g x) = some (h x)) : (xs.map g).filterMap f = xs.map h := by
  rw [List.filterMap_map]
  induction xs with
  | nil => rfl
  | cons x xs ih =>
    rw [List.forall_mem_cons] at hf
    rw [List.filterMap_cons, Function.comp_apply, hf.1, ih hf.2, List.map_cons]

theorem backtick_not_mem_kebab {name : String} (h : isKebabName name = true) :
    backtick ∉ name.toList := by
  intro hmem
  rcases mem_of_isKebabName h hmem with heq | hlower
  · exact absurd heq (by decide)
  · exact absurd hlower (by decide)

theorem backtick_not_mem_segment {name : String} (h : IsName name) :
    backtick ∉ (entityApiSegment name).toList := by
  have hident := isSqlIdentifier_toSnakeCase h
  rw [entityApiSegment, String.toList_ofList]
  intro hmem
  obtain ⟨c, hc, heq⟩ := List.mem_map.mp hmem
  unfold isSqlIdentifier at hident
  cases hlist : (toSnakeCase name).toList with
  | nil => simp [hlist] at hc
  | cons first rest =>
    rw [hlist] at hident hc
    simp only [Bool.and_eq_true, List.all_eq_true] at hident
    have hne : c ≠ '_' := by
      rintro rfl
      exact absurd heq (by decide)
    rw [if_neg hne] at heq
    subst heq
    rcases List.mem_cons.mp hc with rfl | hrest
    · exact absurd hident.1 (by decide)
    · exact absurd (hident.2 _ hrest) (by decide)

variable {spec : AppSpec}

private theorem backtick_not_mem_base {name tail : String} (h : IsName name)
    (htail : backtick ∉ tail.toList) :
    backtick ∉ ("/api/" ++ entityApiSegment name ++ tail).toList := by
  rw [String.toList_append, String.toList_append, List.mem_append, List.mem_append]
  rintro ((hmem | hmem) | hmem)
  · exact absurd hmem (by decide)
  · exact backtick_not_mem_segment h hmem
  · exact htail hmem

theorem entityRows_read {entity : EntityDef} (h : IsName entity.name) :
    (entityRows entity).filterMap readRow = routesOfEntity entity.name := by
  have hbase : backtick ∉ ("/api/" ++ entityApiSegment entity.name).toList := by
    have happend := @backtick_not_mem_base entity.name "" h (by decide)
    simpa using happend
  have hid := @backtick_not_mem_base entity.name "/:id" h (by decide)
  simp only [entityRows, kebabCase_eq_entityApiSegment h, List.filterMap_cons, List.filterMap_nil,
    readRow_routeRow _ hbase, readRow_routeRow _ hid, routesOfEntity]

theorem transitionRows_read (h : spec.valid = true) {workflow : WorkflowDef}
    (hw : workflow ∈ spec.workflows.getD []) :
    (transitionRows workflow).filterMap readRow =
      workflow.transitions.map fun transition => transitionRoute (workflow.entity, transition.name) := by
  obtain ⟨entity, states, hbound⟩ := AppSpec.boundTo_of_mem h hw
  have hname := isName_of_isEntityName (AppSpec.isEntityName_of_mem h hbound.mem)
  rw [hbound.name_eq] at hname
  apply filterMap_map_eq
  intro transition ht
  have hkebab := AppSpec.isKebabName_of_transition h hw ht
  rw [kebabCase_eq_entityApiSegment hname]
  apply readRow_routeRow
  rw [String.append_assoc]
  apply backtick_not_mem_base hname
  rw [String.toList_append, List.mem_append]
  rintro (hmem | hmem)
  · exact absurd hmem (by decide)
  · exact backtick_not_mem_kebab hkebab hmem

theorem pageRows_read (h : spec.valid = true) :
    ((spec.pages.getD []).map pageRow).filterMap readRow =
      (spec.pages.getD []).map fun page => ⟨.GET, "/p/" ++ page.name⟩ := by
  apply filterMap_map_eq
  intro page hp
  apply readRow_routeRow
  rw [String.toList_append, List.mem_append]
  rintro (hmem | hmem)
  · exact absurd hmem (by decide)
  · exact backtick_not_mem_kebab (AppSpec.isKebabName_of_page h hp) hmem

private theorem filterMap_flatMap_eq {α β γ : Type} {f : β → Option γ} {g : α → List β}
    {h : α → List γ} {xs : List α} (hf : ∀ x ∈ xs, (g x).filterMap f = h x) :
    (xs.flatMap g).filterMap f = xs.flatMap h := by
  induction xs with
  | nil => rfl
  | cons x xs ih =>
    rw [List.forall_mem_cons] at hf
    rw [List.flatMap_cons, List.filterMap_append, hf.1, ih hf.2, List.flatMap_cons]

/-- The table lists the routes of the server, the index and the routes of the app, in this order. -/
theorem documentedRoutes_eq (h : spec.valid = true) :
    documentedRoutes spec = serverRoutes ++ [⟨.GET, "/"⟩] ++
      spec.entities.flatMap (fun entity => routesOfEntity entity.name) ++
      (transitionNames spec).map transitionRoute ++
      (spec.pages.getD []).map fun page => ⟨.GET, "/p/" ++ page.name⟩ := by
  have hentities := @filterMap_flatMap_eq _ _ _ readRow entityRows
    (fun entity => routesOfEntity entity.name) spec.entities
    fun entity he => entityRows_read (isName_of_isEntityName (AppSpec.isEntityName_of_mem h he))
  have hworkflows := @filterMap_flatMap_eq _ _ _ readRow transitionRows _
    (spec.workflows.getD []) fun workflow hw => transitionRows_read h hw
  have hlast : ([""] ++ if spec.workflows.getD [] ≠ [] then transitionNotes else []).filterMap
      readRow = [] := by
    split
    · rw [List.filterMap_append, transitionNotes_unread]
      decide
    · decide
  have htransitions : ((spec.workflows.getD []).flatMap fun workflow => workflow.transitions.map
      fun transition => transitionRoute (workflow.entity, transition.name)) =
        (transitionNames spec).map transitionRoute := by
    rw [transitionNames, List.map_flatMap]
    simp only [List.map_map]
    rfl
  rw [documentedRoutes, renderRoutes, List.append_assoc _ [""] _]
  simp only [List.filterMap_append, routesIntro_unread, fixedRows_read, hentities, hworkflows,
    htransitions, pageRows_read h]
  rw [← List.filterMap_append, hlast, List.nil_append, List.append_nil]

private theorem not_mem_serverRoutes {route : Route} (h : route ∈ routes spec) :
    route ∉ serverRoutes := by
  have hpath : route.path = "/" ∨ "/api/".toList <+: route.path.toList ∨
      "/p/".toList <+: route.path.toList := by
    simp only [routes, List.mem_append, List.mem_flatMap, List.mem_map, List.mem_cons] at h
    rcases h with (⟨entity, -, hr⟩ | ⟨x, -, rfl⟩) | rfl | ⟨page, -, rfl⟩
    · right; left
      simp only [routesOfEntity, List.mem_cons, List.not_mem_nil, or_false] at hr
      rcases hr with rfl | rfl | rfl | rfl <;>
        simp only [String.toList_append, List.append_assoc, List.prefix_append]
    · right; left
      simp only [transitionRoute, String.toList_append, List.append_assoc, List.prefix_append]
    · exact .inl rfl
    · right; right
      simp only [String.toList_append, List.prefix_append]
  intro hmem
  simp only [serverRoutes, List.mem_cons, List.not_mem_nil, or_false] at hmem
  rcases hmem with rfl | rfl | rfl | rfl <;> revert hpath <;> decide

/-- The README of a valid app lists the routes that the runtime registers for it, and no other but
those of the server. -/
theorem documented_routes_registered (h : spec.valid = true) :
    ∃ registered, register spec = .ok registered ∧
      ∀ route, route ∈ registered ↔ route ∈ documentedRoutes spec ∧ route ∉ serverRoutes := by
  refine ⟨_, register_eq_ok h, ?_⟩
  intro route
  have hlisted : route ∈ documentedRoutes spec ↔ route ∈ serverRoutes ∨ route ∈ routes spec := by
    rw [documentedRoutes_eq h]
    simp only [routes, List.mem_append, List.mem_cons, List.not_mem_nil, or_false]
    tauto
  rw [hlisted]
  constructor
  · intro hmem
    exact ⟨.inr hmem, not_mem_serverRoutes hmem⟩
  · rintro ⟨hmem | hmem, hserver⟩
    · exact absurd hmem hserver
    · exact hmem

theorem documented_routes_vendors :
    ∃ registered, register vendorApp = .ok registered ∧
      ∀ route, route ∈ registered ↔ route ∈ documentedRoutes vendorApp ∧ route ∉ serverRoutes :=
  documented_routes_registered valid_vendorApp

end OpenRupiv.Compiler
