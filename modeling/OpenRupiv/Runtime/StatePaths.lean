import OpenRupiv.Runtime.Changes
import OpenRupiv.Runtime.States

/-!
# Paths of states

From its creation on, the state of a record moves along the declared transitions of the workflows
on its field, and no body of a `POST` or a `PUT` has a part in it.
-/

namespace OpenRupiv.Runtime

open Js Lib Spec Audit

variable {pg : Postgres} {host : Host} {sha256 : String → String} {spec : AppSpec}
  {entity : EntityDef} {name : String} {call : Call} {id : Uuid}

/-- A transition that is reached by its route. -/
structure OnRoute (spec : AppSpec) (entity : EntityDef) (i : ExecuteTransitionInput) : Prop where
  model : i.model = buildEntityModel spec entity
  mem : entity ∈ spec.entities
  workflow : i.workflow ∈ spec.workflows.getD []
  bound : i.workflow.entity = entity.name
  transition : i.transition ∈ i.workflow.transitions

theorem Call.Routed.onRoute {i : ExecuteTransitionInput} (h : (Call.transition i).Routed spec) :
    ∃ entity, OnRoute spec entity i := by
  cases h with
  | @transition entity workflow _ _ _ hw hfound ht =>
    have hname : entity.name = workflow.entity := by simpa using List.find?_some hfound
    exact ⟨entity, rfl, List.mem_of_find?_eq_some hfound, hw, hname.symm, ht⟩

theorem Call.Routed.onEntity {r : EntityRequest} {mode : Mode} (h : call.Routed spec)
    (hr : call.request = some (r, mode)) :
    ∃ entity ∈ spec.entities, r.model = buildEntityModel spec entity := by
  cases h with
  | transition => exact absurd hr (by simp [Call.request])
  | create he | update he =>
    cases Option.some.inj hr
    exact ⟨_, he, rfl⟩

namespace OnRoute

variable {i : ExecuteTransitionInput}

theorem table_eq (h : OnRoute spec entity i) : i.table = entityTable entity.name := by
  rw [ExecuteTransitionInput.table, h.model]
  rfl

theorem isStateField (h : OnRoute spec entity i) : IsStateField spec entity i.workflow.stateField :=
  ⟨h.mem, i.workflow, h.workflow, h.bound, rfl⟩

end OnRoute

theorem entity_of_table (hc : Compiler.compiles spec = true) {other : EntityDef}
    (he : entity ∈ spec.entities) (ho : other ∈ spec.entities)
    (htable : entityTable entity.name = entityTable other.name) : entity = other :=
  List.inj_on_of_nodup_map (nodup_entityTables hc) he ho htable

/-- A declared transition of a workflow on the field. -/
def Fires (spec : AppSpec) (entity : EntityDef) (name : String) (v v' : Option SqlValue) : Prop :=
  ∃ workflow ∈ spec.workflows.getD [], workflow.entity = entity.name ∧ workflow.stateField = name ∧
    ∃ transition ∈ workflow.transitions, v = some (.str (ofString transition.from)) ∧
      v' = some (.str (ofString transition.to))

theorem checkRow_eq_ok {i : ExecuteTransitionInput} {row : Row}
    (h : i.checkRow host (some row) = .ok ()) :
    row i.stateColumn = some (.str (ofString i.transition.from)) ∧
      checkGuardPredicates host i.transition i.model row = .ok () := by
  simp only [ExecuteTransitionInput.checkRow, ExecuteTransitionInput.requireRow, bind,
    Except.bind, ExecuteTransitionInput.requireFrom] at h
  split at h
  · exact absurd h (by simp)
  · rename_i hfrom
    split at hfrom
    · rename_i hstate
      exact ⟨hstate, h⟩
    · exact absurd hfrom (by simp)

section Step

variable {view view' : RecordView} (hvalid : spec.valid = true)
  (hcompiles : Compiler.compiles spec = true) (hs : IsStateField spec entity name)

include hvalid hcompiles hs

theorem IsStateField.ne_updated_at : toSnakeCase name ≠ "updated_at" := by
  intro heq
  apply hs.column_not_reserved hvalid hcompiles
  rw [heq]
  decide

theorem EntityRequest.updated_columns {r : EntityRequest}
    (hmodel : r.model = buildEntityModel spec entity) {columns : List (String × Scalar)}
    (hprepare : r.prepareUpdate host = .ok columns) {table : String}
    {stored : List (String × SqlValue)} (hstored : encodeAll pg table columns = some stored)
    {now : Int} :
    toSnakeCase name ∉ (stored ++ [("updated_at", SqlValue.date now)]).map Prod.fst := by
  obtain ⟨data, hdata, rfl⟩ := r.prepareUpdate_eq_ok hprepare
  rw [List.map_append, List.mem_append, not_or, keys_encodeAll hstored]
  refine ⟨EntityRequest.stateColumn_not_mem hmodel hs hvalid hcompiles hdata, ?_⟩
  simpa using hs.ne_updated_at hvalid hcompiles

theorem moved_state {i : ExecuteTransitionInput} (hi : OnRoute spec entity i) (row : Row)
    (now : Int) :
    i.moved row now (toSnakeCase name) =
      if i.workflow.stateField = name then some (.str (ofString i.transition.to))
      else row (toSnakeCase name) := by
  have hupdated := hs.ne_updated_at hvalid hcompiles
  simp only [ExecuteTransitionInput.moved, ExecuteTransitionInput.stateColumn, setAll,
    List.foldl_cons, List.foldl_nil]
  rw [Function.update_of_ne hupdated]
  by_cases hname : i.workflow.stateField = name
  · rw [if_pos hname, hname, Function.update_self]
  · rw [if_neg hname, Function.update_of_ne]
    intro heq
    exact hname (hi.isStateField.inj hvalid hcompiles hs heq.symm)

theorem Changes.state (hrouted : call.Routed spec)
    (h : Changes pg host call (entityTable entity.name) id view view') {row : Row}
    (hrow : view.row = some row) :
    ∃ row', view'.row = some row' ∧
      (row' (toSnakeCase name) = row (toSnakeCase name) ∨
        Fires spec entity name (row (toSnakeCase name)) (row' (toSnakeCase name))) := by
  cases h with
  | kept => exact ⟨row, hrow, .inl rfl⟩
  | @moved i row₀ approvals now hcall htable huuid hcheck =>
    cases hrow
    subst hcall
    obtain ⟨owner, hi⟩ := hrouted.onRoute
    rw [hi.table_eq] at htable
    obtain rfl := entity_of_table hcompiles hi.mem hs.mem htable
    refine ⟨i.moved row now, rfl, ?_⟩
    rw [moved_state hvalid hcompiles hs hi]
    by_cases hname : i.workflow.stateField = name
    · rw [if_pos hname]
      right
      have hfrom : row (toSnakeCase name) = some (.str (ofString i.transition.from)) := by
        rw [← hname]
        exact (checkRow_eq_ok hcheck).1
      exact ⟨i.workflow, hi.workflow, hi.bound, hname, i.transition, hi.transition, hfrom, rfl⟩
    · rw [if_neg hname]
      exact .inl rfl
  | approved => exact ⟨row, hrow, .inl rfl⟩
  | created => exact absurd hrow (by simp)
  | @updated r columns stored row₀ approvals now hcall htable hprepare huuid hstored =>
    cases hrow
    obtain ⟨owner, howner, hmodel⟩ := hrouted.onEntity
      (show call.request = some (r, .update) by rw [hcall]; rfl)
    have hrtable : r.table = entityTable owner.name := by rw [EntityRequest.table, hmodel]; rfl
    rw [hrtable] at htable
    obtain rfl := entity_of_table hcompiles howner hs.mem htable
    refine ⟨setAll row (stored ++ [("updated_at", .date now)]), rfl, .inl ?_⟩
    apply setAll_of_not_mem
    exact EntityRequest.updated_columns hvalid hcompiles hs hmodel hprepare hstored

theorem Changes.initial (hrouted : call.Routed spec) (hpg : Migrated pg spec)
    (h : Changes pg host call (entityTable entity.name) id view view') (hrow : view.row = none)
    {row' : Row} (hrow' : view'.row = some row') :
    ∃ workflow ∈ spec.workflows.getD [], workflow.entity = entity.name ∧
      workflow.stateField = name ∧
      row' (toSnakeCase name) = some (.str (ofString workflow.initial)) := by
  cases h with
  | kept => exact absurd (hrow.symm.trans hrow') (by simp)
  | moved | approved | updated => exact absurd hrow (by simp)
  | @created r columns stored approvals now hcall htable hprepare hnodup hstored =>
    cases hrow'
    obtain ⟨owner, howner, hmodel⟩ := hrouted.onEntity
      (show call.request = some (r, .create) by rw [hcall]; rfl)
    have hrtable : r.table = entityTable owner.name := by rw [EntityRequest.table, hmodel]; rfl
    rw [hrtable] at htable
    obtain rfl := entity_of_table hcompiles howner hs.mem htable
    obtain ⟨data, -, rfl⟩ := r.prepareInsert_eq_ok hprepare
    rw [← hrtable] at hstored
    exact EntityRequest.created_state hmodel hs hvalid hpg hnodup hstored _

end Step

section Runs

variable {Client : Type} [DecidableEq Client] {calls : Client → Call} {init contents : Contents}
  {history : History pg Client} {phases : Client → Phase}

/-- A record has one beginning, and its state has moved along transitions since. -/
structure Grown (spec : AppSpec) (entity : EntityDef) (name : String) (init : Contents)
    (history : History pg Client) (contents : Contents) (id : Uuid) : Prop where
  unborn : contents.rows (entityTable entity.name) id = none →
    ∀ row, ¬Born init history (entityTable entity.name) id row
  born : ∀ row, contents.rows (entityTable entity.name) id = some row →
    ∃ first, Born init history (entityTable entity.name) id first
  path : ∀ row first, contents.rows (entityTable entity.name) id = some row →
    Born init history (entityTable entity.name) id first →
    Relation.ReflTransGen (Fires spec entity name) (first (toSnakeCase name))
      (row (toSnakeCase name))

omit [DecidableEq Client] in
theorem born_append {e : Label (store pg) Client} {table : String} {row : Row} :
    Born init (history ++ [e]) table id row ↔
      Born init history table id row ∨ .insertRow table id row ∈ e.writes := by
  simp only [Born, committed_append]
  constructor
  · intro h
    rcases h with h | ⟨c, h | ⟨-, h⟩⟩
    · exact .inl (.inl h)
    · exact .inl (.inr ⟨c, h⟩)
    · exact .inr h
  · intro h
    rcases h with (h | ⟨c, h⟩) | h
    · exact .inl h
    · exact .inr ⟨c, .inl h⟩
    · exact .inr ⟨e.client, .inr ⟨rfl, h⟩⟩

theorem unborn_of_trace
    (h : (protocol pg host sha256 calls).Trace (fun _ => .ready) init history phases contents)
    {table : String} (hnone : contents.rows table id = none) (row : Row) :
    ¬Born init history table id row := by
  induction h with
  | nil =>
    intro hborn
    rcases hborn with hrow | ⟨c, e, he, -⟩
    · exact absurd (hnone.symm.trans hrow) (by simp)
    · exact absurd he List.not_mem_nil
  | @snoc history phases contents φ e _ hstep ih =>
    have hmoves : Moves pg host sha256 (calls e.client) (phases e.client) contents e.cmd e.reply
      e.writes φ := hstep
    intro hborn
    rcases born_append.mp hborn with hborn | hmem
    · apply ih _ hborn
      exact hmoves.stays hnone
    · obtain ⟨-, heq⟩ := hmoves.inserts hmem
      rw [heq, rows_insertRow] at hnone
      exact absurd hnone (by simp)

theorem grown_of_trace (hvalid : spec.valid = true) (hcompiles : Compiler.compiles spec = true)
    (hs : IsStateField spec entity name) (hrouted : ∀ c, (calls c).Routed spec)
    (h : (protocol pg host sha256 calls).Trace (fun _ => .ready) init history phases contents)
    (id : Uuid) : Grown spec entity name init history contents id := by
  induction h with
  | nil =>
    constructor
    · intro hnone row hborn
      rcases hborn with hrow | ⟨c, e, he, -⟩
      · exact absurd (hnone.symm.trans hrow) (by simp)
      · exact absurd he List.not_mem_nil
    · intro row hrow
      exact ⟨row, .inl hrow⟩
    · intro row first hrow hborn
      rcases hborn with hfirst | ⟨c, e, he, -⟩
      · rw [Option.some.inj (hrow.symm.trans hfirst)]
      · exact absurd he List.not_mem_nil
  | @snoc history phases contents φ e htrace hstep ih =>
    have hmoves : Moves pg host sha256 (calls e.client) (phases e.client) contents e.cmd e.reply
      e.writes φ := hstep
    cases hbefore : contents.rows (entityTable entity.name) id with
    | none =>
      constructor
      · exact fun hafter => unborn_of_trace (htrace.snoc hstep) hafter
      · intro row hrow
        exact ⟨row, born_append.mpr (.inr (hmoves.inserted hbefore hrow))⟩
      · intro row first hrow hborn
        rcases born_append.mp hborn with hborn | hmem
        · exact absurd hborn (ih.unborn hbefore first)
        · obtain ⟨-, heq⟩ := hmoves.inserts hmem
          have hsame := hmoves.inserted hbefore hrow
          rw [heq, List.mem_singleton] at hsame
          cases hsame
          exact .refl
    | some before =>
      have hchange := hmoves.changes (entityTable entity.name) id
      obtain ⟨after, hafter, hstate⟩ := Changes.state hvalid hcompiles hs (hrouted _) hchange hbefore
      have hborn : ∀ first, Born init (history ++ [e]) (entityTable entity.name) id first →
          Born init history (entityTable entity.name) id first := by
        intro first hfirst
        rcases born_append.mp hfirst with hfirst | hmem
        · exact hfirst
        · exact absurd (hbefore.symm.trans (hmoves.inserts hmem).1) (by simp)
      constructor
      · intro hnone
        exact absurd (hnone.symm.trans hafter) (by simp)
      · intro row _
        obtain ⟨first, hfirst⟩ := ih.born before hbefore
        exact ⟨first, born_append.mpr (.inl hfirst)⟩
      · intro row first hrow hfirst
        have hpath := ih.path before first hbefore (hborn first hfirst)
        obtain rfl := Option.some.inj (hafter.symm.trans hrow)
        rcases hstate with hsame | hfires
        · rwa [hsame]
        · exact hpath.tail hfires

/-- The states of a record: it starts in an initial state when it is created, it moves along
declared transitions only, and the bodies of `POST` and `PUT` do not reach the column. -/
theorem only_transitions_write_state (hvalid : spec.valid = true)
    (hcompiles : Compiler.compiles spec = true) (hpg : Migrated pg spec)
    (hs : IsStateField spec entity name) (hrouted : ∀ c, (calls c).Routed spec)
    {schedule : List (Client × Choice)} {W : World (store pg) Client Thrown Unit}
    (hrun : World.run schedule (server pg host sha256 calls init) = some W) (id : Uuid) :
    (∀ row, W.contents.rows (entityTable entity.name) id = some row →
      (∃ first, Born init W.history (entityTable entity.name) id first) ∧
        ∀ first, Born init W.history (entityTable entity.name) id first →
          Relation.ReflTransGen (Fires spec entity name) (first (toSnakeCase name))
            (row (toSnakeCase name))) ∧
      (∀ c first, Committed W.history c (.insertRow (entityTable entity.name) id first) →
        ∃ workflow ∈ spec.workflows.getD [], workflow.entity = entity.name ∧
          workflow.stateField = name ∧
          first (toSnakeCase name) = some (.str (ofString workflow.initial))) ∧
      ∀ c r mode, (calls c).request = some (r, mode) → ∀ values,
        Committed W.history c (.setColumns (entityTable entity.name) id values) →
        toSnakeCase name ∉ values.map Prod.fst := by
  obtain ⟨phases, htrace⟩ := trace_of_run hrun
  have hgrown := grown_of_trace hvalid hcompiles hs hrouted htrace id
  refine ⟨?_, ?_, ?_⟩
  · intro row hrow
    exact ⟨hgrown.born row hrow, fun first => hgrown.path row first hrow⟩
  · intro c first hcommitted
    obtain ⟨φ, κ, k, r, ws, φ', hmoves, hmem⟩ := step_of_committed htrace hcommitted
    obtain ⟨hnone, heq⟩ := hmoves.inserts hmem
    have hafter : ((store pg).applyAll κ ws).rows (entityTable entity.name) id = some first := by
      rw [heq, rows_insertRow]
    exact Changes.initial hvalid hcompiles hs (hrouted c) hpg
      (hmoves.changes (entityTable entity.name) id) hnone hafter
  · intro c r mode hr values hcommitted
    obtain ⟨φ, κ, k, r', ws, φ', hmoves, hmem⟩ := step_of_committed htrace hcommitted
    obtain ⟨htable, -, columns, stored, now, hprepare, hstored, rfl⟩ := hmoves.sets_of_request hr hmem
    obtain ⟨owner, howner, hmodel⟩ := (hrouted c).onEntity hr
    have hrtable : r.table = entityTable owner.name := by rw [EntityRequest.table, hmodel]; rfl
    rw [hrtable] at htable
    obtain rfl := entity_of_table hcompiles howner hs.mem htable
    exact EntityRequest.updated_columns hvalid hcompiles hs hmodel hprepare hstored

theorem only_transitions_write_state_vendors :
    ∃ W, alone noVendor (.create (createVendor vendorApp))
        (List.replicate 4 untroubled) = some W ∧
      ∀ row, W.contents.rows "vendor" vendorId = some row →
        (∃ first, Born noVendor W.history "vendor" vendorId first) ∧
          ∀ first, Born noVendor W.history "vendor" vendorId first →
            Relation.ReflTransGen (Fires vendorApp vendor "status")
              (first "status") (row "status") := by
  have hsome : (alone noVendor (.create (createVendor vendorApp))
      (List.replicate 4 untroubled)).isSome = true := by decide
  obtain ⟨W, hrun⟩ := Option.isSome_iff_exists.mp hsome
  have hs : IsStateField vendorApp vendor "status" :=
    ⟨by decide, vendorApproval, by decide, rfl, rfl⟩
  have hstates := only_transitions_write_state valid_vendorApp (by decide) (migrated_postgresText _) hs
    (fun _ => .create (by decide)) hrun vendorId
  exact ⟨W, hrun, hstates.1⟩

end Runs

end OpenRupiv.Runtime
