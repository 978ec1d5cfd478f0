import OpenRupiv.Runtime.Registration

/-!
# Routes that collide

The server refuses a route that it has already.  Entities, pages and the transitions of one workflow
never collide; the transitions of two workflows on one entity do when they have the same name.
-/

namespace OpenRupiv.Runtime

open Js Lib Spec Audit

def transitionNamesOf (spec : AppSpec) (entity : EntityDef) : List String :=
  ((buildEntityModel spec entity).workflows.flatMap (·.transitions)).map (·.name)

private theorem nodup_pairs_iff {α β : Type} [DecidableEq α] {pairs : List (α × β)} :
    pairs.Nodup ↔ ∀ a, ((pairs.filter fun x => x.1 = a).map Prod.snd).Nodup := by
  constructor
  · intro h a
    apply (h.filter _).map_on
    intro x hx y hy hxy
    have hx' : x.1 = a := by simpa using (List.mem_filter.mp hx).2
    have hy' : y.1 = a := by simpa using (List.mem_filter.mp hy).2
    exact Prod.ext (hx'.trans hy'.symm) hxy
  · intro h
    induction pairs with
    | nil => exact List.nodup_nil
    | cons x pairs ih =>
      rw [List.nodup_cons]
      constructor
      · intro hmem
        have hx := h x.1
        rw [List.filter_cons_of_pos (by simp), List.map_cons, List.nodup_cons] at hx
        exact hx.1 (List.mem_map_of_mem (List.mem_filter.mpr ⟨hmem, by simp⟩))
      · apply ih
        intro a
        have hsub := (List.Sublist.filter (fun y => y.1 = a) (List.sublist_cons_self x pairs))
        exact List.Nodup.sublist (hsub.map Prod.snd) (h a)

private theorem filter_transitionNames (spec : AppSpec) (entity : EntityDef) :
    ((transitionNames spec).filter fun x => x.1 = entity.name).map Prod.snd =
      transitionNamesOf spec entity := by
  unfold transitionNamesOf
  show _ = ((((spec.workflows.getD []).filter fun w => w.entity = entity.name).flatMap
    (·.transitions)).map (·.name))
  unfold transitionNames
  induction spec.workflows.getD [] with
  | nil => rfl
  | cons workflow workflows ih =>
    rw [List.flatMap_cons, List.filter_append, List.map_append, ih]
    by_cases hentity : workflow.entity = entity.name
    · rw [List.filter_cons_of_pos (by simp [hentity]), List.flatMap_cons, List.map_append]
      congr 1
      rw [List.filter_eq_self.mpr (by simp [hentity]), List.map_map]
      rfl
    · rw [List.filter_cons_of_neg (by simp [hentity]), List.filter_eq_nil_iff.mpr (by simp [hentity])]
      rfl

/-- The segment of a path after `/api/`. -/
private def segmentOf (path : String) : List Char := (path.toList.drop 5).takeWhile (· ≠ '/')

private theorem segmentOf_base {segment : String} (h : '/' ∉ segment.toList) :
    segmentOf ("/api/" ++ segment) = segment.toList := by
  rw [segmentOf, String.toList_append, show "/api/".toList = ['/', 'a', 'p', 'i', '/'] by decide]
  apply List.takeWhile_eq_self_iff.mpr
  intro c hc
  have hne : c ≠ '/' := fun heq => h (heq ▸ hc)
  simp [hne]

private theorem segmentOf_append {segment tail : String} (h : '/' ∉ segment.toList)
    (htail : tail.toList.head? = some '/') :
    segmentOf ("/api/" ++ segment ++ tail) = segment.toList := by
  obtain ⟨rest, hrest⟩ := List.head?_eq_some_iff.mp htail
  rw [segmentOf, String.toList_append, String.toList_append, hrest,
    show "/api/".toList = ['/', 'a', 'p', 'i', '/'] by decide]
  show (segment.toList ++ '/' :: rest).takeWhile (· ≠ '/') = _
  rw [List.takeWhile_append_of_pos]
  · simp
  · intro c hc
    have hne : c ≠ '/' := fun heq => h (heq ▸ hc)
    simp [hne]

variable {spec : AppSpec}

private theorem segmentOf_entity {name : String} (h : IsName name) {route : Route}
    (hr : route ∈ routesOfEntity name) : segmentOf route.path = (entityApiSegment name).toList := by
  have hslash := slash_not_mem_entityApiSegment h
  simp only [routesOfEntity, List.mem_cons, List.not_mem_nil, or_false] at hr
  rcases hr with rfl | rfl | rfl | rfl
  · exact segmentOf_base hslash
  · exact segmentOf_base hslash
  · exact segmentOf_append hslash (by decide)
  · exact segmentOf_append hslash (by decide)

private theorem segmentOf_transition {x : String × String} (h : IsName x.1) :
    segmentOf (transitionRoute x).path = (entityApiSegment x.1).toList := by
  have hhead : "/:id/transitions/".toList.head? = some '/' := by decide
  rw [transitionRoute, String.append_assoc]
  apply segmentOf_append (slash_not_mem_entityApiSegment h)
  rw [String.toList_append, List.head?_append, hhead]
  rfl

private theorem entity_of_segment (h : spec.valid = true) (hc : Compiler.compiles spec = true)
    {entity entity' : EntityDef} (he : entity ∈ spec.entities) (he' : entity' ∈ spec.entities)
    (hsegment : (entityApiSegment entity.name).toList = (entityApiSegment entity'.name).toList) :
    entity = entity' := by
  have hname := isName_of_isEntityName (AppSpec.isEntityName_of_mem h he)
  have hname' := isName_of_isEntityName (AppSpec.isEntityName_of_mem h he')
  have htable := entityApiSegment_inj hname hname' (String.toList_injective hsegment)
  exact List.inj_on_of_nodup_map (nodup_entityTables hc) he he' htable

private theorem nodup_entityRoutes (h : spec.valid = true) (hc : Compiler.compiles spec = true) :
    (spec.entities.flatMap fun entity => routesOfEntity entity.name).Nodup := by
  rw [List.nodup_flatMap]
  constructor
  · intro entity _
    have hne : "/api/" ++ entityApiSegment entity.name ≠
        "/api/" ++ entityApiSegment entity.name ++ "/:id" := by
      intro heq
      have hlen := congrArg (fun s => s.toList.length) heq
      simp at hlen
    simp [routesOfEntity, hne]
  · have hnodup : spec.entities.Nodup := List.Nodup.of_map _ (AppSpec.nodup_entityNames h)
    apply hnodup.imp_of_mem
    intro entity entity' he he' hne route hr hr'
    apply hne
    apply entity_of_segment h hc he he'
    rw [← segmentOf_entity (isName_of_isEntityName (AppSpec.isEntityName_of_mem h he)) hr,
      segmentOf_entity (isName_of_isEntityName (AppSpec.isEntityName_of_mem h he')) hr']

private theorem entity_of_transition (h : spec.valid = true) {x : String × String}
    (hx : x ∈ transitionNames spec) : ∃ entity ∈ spec.entities, entity.name = x.1 := by
  obtain ⟨workflow, hw, hmem⟩ := List.mem_flatMap.mp hx
  obtain ⟨transition, -, rfl⟩ := List.mem_map.mp hmem
  obtain ⟨entity, states, hbound⟩ := AppSpec.boundTo_of_mem h hw
  exact ⟨entity, hbound.mem, hbound.name_eq⟩

private theorem transitionRoute_inj (h : spec.valid = true) (hc : Compiler.compiles spec = true)
    {x y : String × String} (hx : x ∈ transitionNames spec) (hy : y ∈ transitionNames spec)
    (heq : transitionRoute x = transitionRoute y) : x = y := by
  obtain ⟨entity, he, hname⟩ := entity_of_transition h hx
  obtain ⟨entity', he', hname'⟩ := entity_of_transition h hy
  have hx' : IsName x.1 := by
    rw [← hname]
    exact isName_of_isEntityName (AppSpec.isEntityName_of_mem h he)
  have hy' : IsName y.1 := by
    rw [← hname']
    exact isName_of_isEntityName (AppSpec.isEntityName_of_mem h he')
  have hpath := congrArg Route.path heq
  have hsegment : (entityApiSegment x.1).toList = (entityApiSegment y.1).toList := by
    rw [← segmentOf_transition hx', ← segmentOf_transition hy', hpath]
  have hsame : x.1 = y.1 := by
    rw [← hname, ← hname', entity_of_segment h hc he he']
    rw [hname, hname']
    exact hsegment
  simp only [transitionRoute, hsame] at hpath
  exact Prod.ext hsame (String.append_right_inj _ |>.mp hpath)

private theorem nodup_pageRoutes (h : spec.valid = true) :
    ((⟨.GET, "/"⟩ : Route) :: (spec.pages.getD []).map fun page => ⟨.GET, "/p/" ++ page.name⟩).Nodup := by
  rw [List.nodup_cons]
  constructor
  · intro hmem
    obtain ⟨page, -, hpath⟩ := List.mem_map.mp hmem
    have hlist := congrArg (fun r => r.path.toList) hpath
    simp at hlist
  · have hnames := AppSpec.nodup_pageNames h
    apply List.Nodup.of_map Route.path
    rw [List.map_map]
    have hmap : (spec.pages.getD []).map (Route.path ∘ fun page => ⟨.GET, "/p/" ++ page.name⟩) =
        ((spec.pages.getD []).map (·.name)).map ("/p/" ++ ·) := by
      rw [List.map_map]
      rfl
    rw [hmap]
    apply hnames.map
    intro name name' heq
    exact String.append_right_inj _ |>.mp heq

private theorem entityRoute_ne_transition (h : spec.valid = true) {entity : EntityDef}
    (he : entity ∈ spec.entities) {x : String × String} (hx : x ∈ transitionNames spec) :
    transitionRoute x ∉ routesOfEntity entity.name := by
  intro hmem
  obtain ⟨owner, howner, hname⟩ := entity_of_transition h hx
  have hx' : IsName x.1 := by
    rw [← hname]
    exact isName_of_isEntityName (AppSpec.isEntityName_of_mem h howner)
  have hsegment := segmentOf_entity (isName_of_isEntityName (AppSpec.isEntityName_of_mem h he)) hmem
  rw [segmentOf_transition hx'] at hsegment
  have hpath : (transitionRoute x).path = "/api/" ++ entityApiSegment entity.name := by
    simpa [routesOfEntity, transitionRoute] using hmem
  rw [transitionRoute, ← String.toList_injective hsegment] at hpath
  have hlen := congrArg (fun s => s.toList.length) hpath
  simp at hlen

private theorem entityRoute_ne_page {name : String} {route : Route}
    (hr : route ∈ routesOfEntity name) :
    route ≠ ⟨.GET, "/"⟩ ∧ ∀ page, route ≠ ⟨.GET, "/p/" ++ page⟩ := by
  have hpath : ∃ tail, route.path.toList = '/' :: 'a' :: tail := by
    simp only [routesOfEntity, List.mem_cons, List.not_mem_nil, or_false] at hr
    rcases hr with rfl | rfl | rfl | rfl <;>
      simp [String.toList_append, show "/api/".toList = ['/', 'a', 'p', 'i', '/'] by decide]
  obtain ⟨tail, htail⟩ := hpath
  constructor
  · intro heq
    rw [heq] at htail
    simp at htail
  · intro page heq
    rw [heq] at htail
    simp at htail

theorem nodup_routes_iff (h : spec.valid = true) (hc : Compiler.compiles spec = true) :
    (routes spec).Nodup ↔ ∀ entity ∈ spec.entities, (transitionNamesOf spec entity).Nodup := by
  have hpairs : (transitionNames spec).Nodup ↔
      ∀ entity ∈ spec.entities, (transitionNamesOf spec entity).Nodup := by
    rw [nodup_pairs_iff]
    constructor
    · intro hall entity _
      rw [← filter_transitionNames]
      exact hall entity.name
    · intro hall name
      by_cases hname : ∃ entity ∈ spec.entities, entity.name = name
      · obtain ⟨entity, he, rfl⟩ := hname
        rw [filter_transitionNames]
        exact hall entity he
      · have hnone : (transitionNames spec).filter (fun x => x.1 = name) = [] := by
          apply List.filter_eq_nil_iff.mpr
          intro x hx hx'
          obtain ⟨entity, he, heq⟩ := entity_of_transition h hx
          exact hname ⟨entity, he, heq.trans (by simpa using hx')⟩
        rw [hnone]
        exact List.nodup_nil
  rw [← hpairs]
  constructor
  · intro hnodup
    rw [routes, List.append_assoc, List.nodup_append] at hnodup
    exact List.Nodup.of_map _ (List.nodup_append.mp hnodup.2.1).1
  · intro hnodup
    have htransitions := hnodup.map_on fun x hx y hy => transitionRoute_inj h hc hx hy
    rw [routes, List.append_assoc, List.nodup_append, List.nodup_append]
    refine ⟨nodup_entityRoutes h hc, ⟨htransitions, nodup_pageRoutes h, ?_⟩, ?_⟩
    · intro route hr other hother heq
      obtain ⟨x, -, rfl⟩ := List.mem_map.mp hr
      have hmethod : other.method = .POST := by rw [← heq, transitionRoute]
      rcases List.mem_cons.mp hother with rfl | hother
      · exact Method.noConfusion hmethod
      · obtain ⟨page, -, rfl⟩ := List.mem_map.mp hother
        exact Method.noConfusion hmethod
    · intro route hr other hother heq
      obtain ⟨entity, he, hroute⟩ := List.mem_flatMap.mp hr
      have hname := isName_of_isEntityName (AppSpec.isEntityName_of_mem h he)
      rcases List.mem_append.mp hother with hother | hother
      · obtain ⟨x, hx, rfl⟩ := List.mem_map.mp hother
        exact entityRoute_ne_transition h he hx (heq ▸ hroute)
      · obtain ⟨hroot, hpage⟩ := entityRoute_ne_page hroute
        rcases List.mem_cons.mp hother with hother | hother
        · exact hroot (heq.trans hother)
        · obtain ⟨page, -, rfl⟩ := List.mem_map.mp hother
          exact hpage page.name heq

/-- An app that is valid and compiles can be served exactly when on each entity the transitions of
all workflows have different names. -/
theorem registered_distinct_iff (h : spec.valid = true) (hc : Compiler.compiles spec = true) :
    (∃ registered, register spec = .ok registered ∧ registered.Nodup) ↔
      ∀ entity ∈ spec.entities, (transitionNamesOf spec entity).Nodup := by
  rw [← nodup_routes_iff h hc, register_eq_ok h]
  constructor
  · rintro ⟨registered, heq, hnodup⟩
    rwa [Except.ok.inj heq]
  · intro hnodup
    exact ⟨_, rfl, hnodup⟩

theorem registered_distinct_vendors :
    (∃ registered, register vendorApp = .ok registered ∧
      registered.Nodup) ↔
      ∀ entity ∈ vendorApp.entities,
        (transitionNamesOf vendorApp entity).Nodup :=
  registered_distinct_iff valid_vendorApp (by decide)

def riskApproval : WorkflowDef :=
  { riskReview with
    name := "risk-approval"
    transitions := [{ name := "approve", «from» := "open", «to» := "closed" }] }

/-- Two workflows on one entity may use one name, and then the server does not start. -/
theorem transition_routes_collide :
    ¬∀ spec : AppSpec, spec.valid = true → Compiler.compiles spec = true →
      ∃ registered, register spec = .ok registered ∧ registered.Nodup := by
  intro claim
  have hvalid : (vendors [vendorApproval, riskApproval]).valid = true := by decide
  have hcompiles : Compiler.compiles (vendors [vendorApproval, riskApproval]) = true := by decide
  obtain ⟨registered, heq, hdistinct⟩ := claim _ hvalid hcompiles
  rw [register_eq_ok hvalid] at heq
  rw [← Except.ok.inj heq, nodup_routes_iff hvalid hcompiles] at hdistinct
  exact absurd (hdistinct vendor (by decide)) (by decide)

end OpenRupiv.Runtime
