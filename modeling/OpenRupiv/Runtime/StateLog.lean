import OpenRupiv.Runtime.Principals

/-!
# The audit log and the states

The `workflow.transition` records that name a record are, one for one and in the same order, the
committed writes to its state columns; replaying them gives the states that the record is in.
-/

namespace OpenRupiv.Runtime

open Js Lib Spec Audit

variable {pg : Postgres} {host : Host} {sha256 : String → String} {spec : AppSpec}
  {entity : EntityDef} {table : String} {id : Uuid}

structure StateWrite where
  column : String
  before : Option SqlValue
  after : SqlValue

/-- The columns that the workflows on an entity keep their states in. -/
def stateColumns (spec : AppSpec) (entity : EntityDef) : List String :=
  (buildEntityModel spec entity).workflows.map fun w => toSnakeCase w.stateField

def Write.toColumns (columns : List String) (table : String) (id : Uuid) (κ : Contents) :
    Write → List StateWrite
  | .setColumns table' id' values =>
      if table' = table ∧ id' = id then
        values.filterMap fun e =>
          if e.1 ∈ columns then some ⟨e.1, (κ.rows table id).bind fun row => row e.1, e.2⟩ else none
      else []
  | _ => []

/-- What the writes do to these columns, one after the other. -/
def writesTo (columns : List String) (table : String) (id : Uuid) : Contents → List Write →
    List StateWrite
  | _, [] => []
  | κ, w :: ws => w.toColumns columns table id κ ++ writesTo columns table id (κ.apply w) ws

/-- The value of a column after the writes. -/
def written (column : String) (first : Option SqlValue) (writes : List StateWrite) :
    Option SqlValue :=
  writes.foldl (fun v w => if w.column = column then some w.after else v) first

theorem writesTo_append {columns : List String} {κ : Contents} {ws ws' : List Write} :
    writesTo columns table id κ (ws ++ ws') =
      writesTo columns table id κ ws ++
        writesTo columns table id ((store pg).applyAll κ ws) ws' := by
  induction ws generalizing κ with
  | nil => rfl
  | cons w ws ih => rw [List.cons_append, writesTo, writesTo, ih, List.append_assoc,
      Engine.applyAll_cons]

theorem written_append (column : String) (first : Option SqlValue) (writes writes' : List StateWrite) :
    written column first (writes ++ writes') = written column (written column first writes) writes' :=
  List.foldl_append

theorem mem_stateColumns {column : String} (he : entity ∈ spec.entities) :
    column ∈ stateColumns spec entity ↔
      ∃ name, IsStateField spec entity name ∧ toSnakeCase name = column := by
  constructor
  · intro h
    obtain ⟨w, hw, heq⟩ := List.mem_map.mp h
    obtain ⟨hmem, hentity⟩ := List.mem_filter.mp hw
    exact ⟨w.stateField, ⟨he, w, hmem, by simpa using hentity, rfl⟩, heq⟩
  · rintro ⟨name, hs, rfl⟩
    obtain ⟨w, hw, hentity, rfl⟩ := hs.workflow
    exact List.mem_map.mpr ⟨w, List.mem_filter.mpr ⟨hw, by simpa using hentity⟩, rfl⟩

section Columns

variable {columns : List String} {column : String} {κ : Contents} {ws : List Write}

private theorem setAll_eq_written (hcolumn : column ∈ columns) (values : List (String × SqlValue))
    (row : Row) (before : String → Option SqlValue) :
    setAll row values column = written column (row column) (values.filterMap fun e =>
      if e.1 ∈ columns then some ⟨e.1, before e.1, e.2⟩ else none) := by
  induction values generalizing row with
  | nil => rfl
  | cons e values ih =>
    show setAll (Function.update row e.1 (some e.2)) values column = _
    rw [ih]
    by_cases hsame : e.1 = column
    · subst hsame
      rw [Function.update_self, List.filterMap_cons]
      simp [hcolumn, written]
    · rw [Function.update_of_ne (Ne.symm hsame), List.filterMap_cons]
      by_cases he : e.1 ∈ columns
      · simp [he, written, hsame]
      · simp [he]

private theorem row_apply {w : Write} (hw : ∀ row, w ≠ .insertRow table id row) {row : Row}
    (hrow : κ.rows table id = some row) :
    ∃ row', (κ.apply w).rows table id = some row' ∧ ∀ column ∈ columns,
      row' column = written column (row column) (w.toColumns columns table id κ) := by
  cases w with
  | setColumns table' id' values =>
    by_cases hsame : table' = table ∧ id' = id
    · obtain ⟨rfl, rfl⟩ := hsame
      refine ⟨setAll row values, by simp [Contents.apply, hrow], ?_⟩
      intro column hcolumn
      rw [setAll_eq_written hcolumn values row fun c => (κ.rows table' id').bind fun row => row c,
        Write.toColumns, if_pos ⟨rfl, rfl⟩]
    · refine ⟨row, ?_, ?_⟩
      · rw [Contents.apply, Contents.setRow_rows_of_ne _ _ hsame, hrow]
      · intro column _
        rw [Write.toColumns, if_neg hsame]
        rfl
  | insertRow table' id' row' =>
    have hother : ¬(table' = table ∧ id' = id) := by
      rintro ⟨rfl, rfl⟩
      exact hw row' rfl
    refine ⟨row, ?_, fun _ _ => rfl⟩
    rw [Contents.apply, Contents.setRow_rows_of_ne _ _ hother, hrow]
  | _ => exact ⟨row, hrow, fun _ _ => rfl⟩

theorem row_applyAll (hws : ∀ row, Write.insertRow table id row ∉ ws) {row : Row}
    (hrow : κ.rows table id = some row) :
    ∃ row', ((store pg).applyAll κ ws).rows table id = some row' ∧ ∀ column ∈ columns,
      row' column = written column (row column) (writesTo columns table id κ ws) := by
  induction ws generalizing κ row with
  | nil => exact ⟨row, hrow, fun _ _ => rfl⟩
  | cons w ws ih =>
    have hw : ∀ row, w ≠ .insertRow table id row := by
      intro row heq
      exact hws row (heq ▸ List.mem_cons_self)
    obtain ⟨middle, hmiddle, hfirst⟩ := @row_apply _ _ columns κ w hw row hrow
    obtain ⟨last, hlast, hrest⟩ :=
      ih (κ := κ.apply w) (fun row hmem => hws row (List.mem_cons_of_mem _ hmem)) hmiddle
    refine ⟨last, hlast, ?_⟩
    intro column hcolumn
    rw [hrest column hcolumn, hfirst column hcolumn, writesTo, written_append]

end Columns

/-- A record of a transition of this record. -/
structure TransitionOf (pg : Postgres) (table : String) (id : Uuid) (row : AuditRow) : Prop where
  event : row.event = ofString "workflow.transition"
  subject : ∃ recordId, row.subject = some (ofString (table ++ ":" ++ recordId)) ∧
    pg.uuid recordId = some id

open Classical in
noncomputable def transitionsOf (pg : Postgres) (table : String) (id : Uuid)
    (rows : List AuditRow) : List AuditRow :=
  rows.filter fun row => TransitionOf pg table id row

/-- The state column of the workflow that a record names. -/
def columnOf (spec : AppSpec) (row : AuditRow) : Option String :=
  ((spec.workflows.getD []).find? fun w => row.attribute "workflow" = some (ofString w.name)).map
    fun w => toSnakeCase w.stateField

/-- A record says what was written. -/
structure Tells (spec : AppSpec) (row : AuditRow) (w : StateWrite) : Prop where
  column : columnOf spec row = some w.column
  before : ∃ s, row.attribute "from" = some s ∧ w.before = some (.str s)
  after : ∃ s, row.attribute "to" = some s ∧ w.after = .str s

/-- The value of a column, as the records tell it. -/
def replay (spec : AppSpec) (column : String) (first : Option SqlValue) (rows : List AuditRow) :
    Option SqlValue :=
  rows.foldl
    (fun v row => if columnOf spec row = some column then (row.attribute "to").map .str else v) first

theorem replay_eq_written {rows : List AuditRow} {writes : List StateWrite}
    (h : List.Forall₂ (Tells spec) rows writes) (column : String) (first : Option SqlValue) :
    replay spec column first rows = written column first writes := by
  induction h generalizing first with
  | nil => rfl
  | @cons row w rows writes hrow _ ih =>
    obtain ⟨s, hto, hafter⟩ := hrow.after
    have hfirst : replay spec column first (row :: rows) =
        replay spec column (if w.column = column then some w.after else first) rows := by
      simp [replay, hrow.column, hto, hafter]
    rw [hfirst, ih]
    rfl

theorem transitionsOf_append (rows rows' : List AuditRow) :
    transitionsOf pg table id (rows ++ rows') =
      transitionsOf pg table id rows ++ transitionsOf pg table id rows' :=
  List.filter_append rows rows'

theorem transitionsOf_singleton_of_not {row : AuditRow} (h : ¬TransitionOf pg table id row) :
    transitionsOf pg table id [row] = [] := by
  simp [transitionsOf, h]

theorem transitionsOf_singleton {row : AuditRow} (h : TransitionOf pg table id row) :
    transitionsOf pg table id [row] = [row] := by
  simp [transitionsOf, h]

theorem columnOf_eq (hvalid : spec.valid = true) {workflow : WorkflowDef}
    (hw : workflow ∈ spec.workflows.getD []) {row : AuditRow}
    (hrow : row.attribute "workflow" = some (ofString workflow.name)) :
    columnOf spec row = some (toSnakeCase workflow.stateField) := by
  have hnames := AppSpec.nodup_workflowNames hvalid
  unfold columnOf
  cases hfound : (spec.workflows.getD []).find? fun w =>
      row.attribute "workflow" = some (ofString w.name) with
  | none =>
    have hnone := List.find?_eq_none.mp hfound workflow hw
    exact absurd hrow (by simpa using hnone)
  | some found =>
    have hname : workflow.name = found.name := by
      have hfoundName := List.find?_some hfound
      rw [hrow] at hfoundName
      simpa using hfoundName
    obtain rfl := List.inj_on_of_nodup_map hnames hw (List.mem_of_find?_eq_some hfound) hname
    rfl

theorem subject_inj {table table' recordId recordId' : String} (h : ':' ∉ table.toList)
    (h' : ':' ∉ table'.toList) (heq : table ++ ":" ++ recordId = table' ++ ":" ++ recordId') :
    table = table' ∧ recordId = recordId' := by
  have hlist : table.toList ++ ':' :: recordId.toList = table'.toList ++ ':' :: recordId'.toList := by
    have := congrArg String.toList heq
    simpa [String.toList_append] using this
  have htake : ∀ {cs ds : List Char}, ':' ∉ cs → (cs ++ ':' :: ds).takeWhile (· ≠ ':') = cs := by
    intro cs ds hcs
    rw [List.takeWhile_append_of_pos]
    · simp
    · intro c hc
      have hne : c ≠ ':' := fun heq => hcs (heq ▸ hc)
      simp [hne]
  have hsame : table.toList = table'.toList := by
    rw [← @htake _ recordId.toList h, ← @htake _ recordId'.toList h', hlist]
  refine ⟨String.toList_injective hsame, ?_⟩
  rw [hsame] at hlist
  apply String.toList_injective
  exact (List.cons.inj (List.append_cancel_left hlist)).2

theorem colon_not_mem_entityTable (hvalid : spec.valid = true) (he : entity ∈ spec.entities) :
    ':' ∉ (entityTable entity.name).toList := by
  have hname := isName_of_isEntityName (AppSpec.isEntityName_of_mem hvalid he)
  have hident := isSqlIdentifier_toSnakeCase hname
  intro hmem
  unfold isSqlIdentifier at hident
  rw [← entityTable] at hident
  split at hident
  · rename_i hnil
    rw [hnil] at hmem
    exact absurd hmem List.not_mem_nil
  · rename_i c rest hcons
    simp only [Bool.and_eq_true, List.all_eq_true] at hident
    rw [hcons] at hmem
    rcases List.mem_cons.mp hmem with rfl | hmem
    · exact absurd hident.1 (by decide)
    · exact absurd (hident.2 _ hmem) (by decide)

theorem writesTo_eq_nil {columns : List String} {κ : Contents} {ws : List Write}
    (h : ∀ values, Write.setColumns table id values ∉ ws) : writesTo columns table id κ ws = [] := by
  induction ws generalizing κ with
  | nil => rfl
  | cons w ws ih =>
    rw [writesTo, ih fun values hmem => h values (List.mem_cons_of_mem _ hmem), List.append_nil]
    cases w with
    | setColumns table' id' values =>
      apply if_neg
      rintro ⟨rfl, rfl⟩
      exact h values List.mem_cons_self
    | _ => rfl

section Step

variable {call : Call} {φ φ' : Phase} {κ : Contents} {k : Cmd (store pg)} {r : Option k.Reply}
  {ws : List Write}

namespace ExecuteTransitionInput

variable {i : ExecuteTransitionInput} {audit : AuditRow} {approvals : Option (Nat × Nat)}

theorem transitionOf (h : Appends pg sha256 κ.audit (i.transitionRecord approvals) audit)
    (huuid : pg.uuid i.recordId = some id) : TransitionOf pg i.table id audit :=
  ⟨event_transitionRecord h.shows, i.recordId, (concerns_transitionRecord h.shows).subject, huuid⟩

theorem not_transitionOf (hconcerns : i.Concerns audit) {uuid : Uuid}
    (huuid : pg.uuid i.recordId = some uuid) (hcolon : ':' ∉ i.table.toList)
    (hcolon' : ':' ∉ table.toList) (hne : ¬(i.table = table ∧ uuid = id)) :
    ¬TransitionOf pg table id audit := by
  rintro ⟨-, recordId, hsubject, hid⟩
  rw [hconcerns.subject, Option.some.injEq, ofString_inj] at hsubject
  obtain ⟨htable, rfl⟩ := subject_inj hcolon hcolon' hsubject
  exact hne ⟨htable, Option.some.inj (huuid.symm.trans hid)⟩

theorem writesTo_stateWrites (hvalid : spec.valid = true) (hcompiles : Compiler.compiles spec = true)
    (hi : OnRoute spec entity i) (now : Int) (seen : List Approval) :
    writesTo (stateColumns spec entity) i.table id κ
        (i.stateWrites id now seen ++ [.insertAudit audit]) =
      [⟨i.stateColumn, (κ.rows i.table id).bind fun row => row i.stateColumn,
        .str (ofString i.transition.to)⟩] := by
  have hstate : i.stateColumn ∈ stateColumns spec entity :=
    (mem_stateColumns hi.mem).mpr ⟨_, hi.isStateField, rfl⟩
  have hupdated : "updated_at" ∉ stateColumns spec entity := by
    intro hmem
    obtain ⟨name, hs, heq⟩ := (mem_stateColumns hi.mem).mp hmem
    exact hs.ne_updated_at hvalid hcompiles heq
  simp [ExecuteTransitionInput.stateWrites, writesTo, Write.toColumns, hstate, hupdated]

theorem tells (hvalid : spec.valid = true) (hi : OnRoute spec entity i)
    (h : Appends pg sha256 κ.audit (i.transitionRecord approvals) audit) {row : Row}
    (hrow : κ.rows i.table id = some row) (hcheck : i.checkRow host (some row) = .ok ()) :
    Tells spec audit ⟨i.stateColumn, (κ.rows i.table id).bind fun row => row i.stateColumn,
      .str (ofString i.transition.to)⟩ := by
  obtain ⟨hfrom, hto⟩ := states_transitionRecord h.shows
  refine ⟨columnOf_eq hvalid hi.workflow (concerns_transitionRecord h.shows).workflow,
    ⟨_, hfrom, ?_⟩, _, hto, rfl⟩
  rw [hrow]
  exact (checkRow_eq_ok hcheck).1

end ExecuteTransitionInput

private theorem tells_of_audit {columns : List String} {event : String} {audit : AuditRow}
    (haudit : ws.filterMap Write.auditRow = [audit]) (hevent : audit.event = ofString event)
    (hne : event ≠ "workflow.transition")
    (hset : ∀ values, Write.setColumns table id values ∉ ws) :
    List.Forall₂ (Tells spec) (transitionsOf pg table id (ws.filterMap Write.auditRow))
      (writesTo columns table id κ ws) := by
  have hnot : ¬TransitionOf pg table id audit := by
    intro h
    exact hne (ofString_inj.mp (hevent.symm.trans h.event))
  rw [haudit, transitionsOf_singleton_of_not hnot, writesTo_eq_nil hset]
  exact .nil

/-- The transition records of a step tell what it does to the state columns of a record. -/
theorem ExecuteTransitionInput.EffectOf.tells {i : ExecuteTransitionInput} {uuid : Uuid}
    {outcome : TransitionOutcome} (hvalid : spec.valid = true)
    (hcompiles : Compiler.compiles spec = true) (he : entity ∈ spec.entities)
    (hrouted : (Call.transition i).Routed spec) (huuid : pg.uuid i.recordId = some uuid) {row : Row}
    (hrow : κ.rows i.table uuid = some row) (hcheck : i.checkRow host (some row) = .ok ())
    (h : i.EffectOf pg sha256 uuid κ ws outcome) :
    List.Forall₂ (Tells spec)
      (transitionsOf pg (entityTable entity.name) id (ws.filterMap Write.auditRow))
      (writesTo (stateColumns spec entity) (entityTable entity.name) id κ ws) := by
  obtain ⟨owner, hi⟩ := hrouted.onRoute
  by_cases hsame : i.table = entityTable entity.name ∧ uuid = id
  · obtain ⟨htable, rfl⟩ := hsame
    obtain rfl := entity_of_table hcompiles hi.mem he (by rw [← hi.table_eq, htable])
    rw [← htable]
    cases h with
    | plain hnone happends =>
      rw [writesTo_stateWrites hvalid hcompiles hi]
      show List.Forall₂ _ (transitionsOf pg i.table uuid [_]) _
      rw [transitionsOf_singleton (transitionOf happends huuid)]
      exact .cons (ExecuteTransitionInput.tells hvalid hi happends hrow hcheck) .nil
    | final hrule hfresh hlength hle happends =>
      rw [List.cons_append, writesTo, writesTo_stateWrites hvalid hcompiles hi]
      show List.Forall₂ _ (transitionsOf pg i.table uuid [_]) _
      rw [transitionsOf_singleton (transitionOf happends huuid)]
      exact .cons (ExecuteTransitionInput.tells hvalid hi happends hrow hcheck) .nil
    | pending hrule hfresh hlength hlt happends =>
      exact tells_of_audit rfl (happends.shows.event _ rfl) (by decide) (by simp)
  · have hnone : writesTo (stateColumns spec entity) (entityTable entity.name) id κ ws = [] := by
      apply writesTo_eq_nil
      intro values hw
      exact hsame (h.touches hw ⟨rfl, rfl⟩)
    have hcolon : ':' ∉ i.table.toList := by
      rw [hi.table_eq]
      exact colon_not_mem_entityTable hvalid hi.mem
    have hother : ∀ audit, i.Concerns audit →
        transitionsOf pg (entityTable entity.name) id [audit] = [] := by
      intro audit hconcerns
      exact transitionsOf_singleton_of_not
        (not_transitionOf hconcerns huuid hcolon (colon_not_mem_entityTable hvalid he) hsame)
    rw [hnone]
    cases h with
    | plain _ happends | final _ _ _ _ happends =>
      show List.Forall₂ _ (transitionsOf pg (entityTable entity.name) id [_]) _
      rw [hother _ (concerns_transitionRecord happends.shows)]
      exact .nil
    | pending _ _ _ _ happends =>
      show List.Forall₂ _ (transitionsOf pg (entityTable entity.name) id [_]) _
      rw [hother _ (concerns_approvalRecord happends.shows)]
      exact .nil

theorem Moves.tells (hvalid : spec.valid = true) (hcompiles : Compiler.compiles spec = true)
    (he : entity ∈ spec.entities) (hrouted : call.Routed spec)
    (h : Moves pg host sha256 call φ κ k r ws φ') :
    List.Forall₂ (Tells spec)
      (transitionsOf pg (entityTable entity.name) id (ws.filterMap Write.auditRow))
      (writesTo (stateColumns spec entity) (entityTable entity.name) id κ ws) := by
  cases h with
  | failed | unrolled | quiet | clock | log | invoked | returned | looked | asked | locked
  | duplicate | absent => exact .nil
  | granted _ _ happends | denied _ _ happends | reported _ happends
  | rejected _ _ _ happends =>
    exact tells_of_audit rfl (happends.shows.event _ rfl) (by decide) (by simp)
  | effect hcall huuid hrow hcheck heffect =>
    rw [hcall] at hrouted
    exact heffect.tells hvalid hcompiles he hrouted huuid hrow hcheck
  | created => exact .nil
  | @updated q columns stored κ row uuid now hcall hprepare huuid hstored hrow =>
    have hnone : writesTo (stateColumns spec entity) (entityTable entity.name) id κ
        [.setColumns q.table uuid (stored ++ [("updated_at", .date now)])] = [] := by
      rw [writesTo, writesTo, List.append_nil, Write.toColumns]
      split
      · rename_i hsame
        obtain ⟨owner, howner, hmodel⟩ := hrouted.onEntity
          (show call.request = some (q, .update) by rw [hcall]; rfl)
        have hqtable : q.table = entityTable owner.name := by rw [EntityRequest.table, hmodel]; rfl
        obtain rfl := entity_of_table hcompiles howner he (by rw [← hqtable, hsame.1])
        rw [List.filterMap_eq_nil_iff]
        intro e hmem
        apply if_neg
        intro hstate
        obtain ⟨name, hs, heq⟩ := (mem_stateColumns he).mp hstate
        have hother : toSnakeCase name ∉
            (stored ++ [("updated_at", SqlValue.date now)]).map Prod.fst :=
          EntityRequest.updated_columns hvalid hcompiles hs hmodel hprepare hstored
        apply hother
        rw [heq]
        exact List.mem_map_of_mem hmem
      · rfl
    rw [hnone]
    exact .nil

theorem Moves.sets (h : Moves pg host sha256 call φ κ k r ws φ') {values : List (String × SqlValue)}
    (hw : Write.setColumns table id values ∈ ws) : κ.rows table id ≠ none := by
  cases h with
  | failed | unrolled | quiet | clock | log | invoked | returned | looked | asked | locked
  | duplicate | absent => exact absurd hw List.not_mem_nil
  | granted | denied | reported | rejected | created =>
    exact absurd (List.mem_singleton.mp hw) (by simp)
  | effect _ _ hrow _ heffect =>
    obtain ⟨rfl, rfl⟩ := heffect.touches hw ⟨rfl, rfl⟩
    rw [hrow]
    exact Option.some_ne_none _
  | updated _ _ _ _ hrow =>
    cases List.mem_singleton.mp hw
    rw [hrow]
    exact Option.some_ne_none _

end Step

section Runs

variable {Client : Type} [DecidableEq Client] {calls : Client → Call} {init contents : Contents}
  {history : History pg Client} {phases : Client → Phase}

def History.writesTo (columns : List String) (table : String) (id : Uuid) (init : Contents)
    (history : History pg Client) : List StateWrite :=
  Runtime.writesTo columns table id init (history.flatMap (·.writes))

omit [DecidableEq Client] in
theorem History.writesTo_concat {columns : List String} {e : Label (store pg) Client}
    (hcontents : contents = (store pg).applyAll init (history.flatMap (·.writes))) :
    History.writesTo columns table id init (history ++ [e]) =
      History.writesTo columns table id init history ++
        Runtime.writesTo columns table id contents e.writes := by
  rw [History.writesTo, List.flatMap_append, List.flatMap_singleton, writesTo_append, ← hcontents]
  rfl

omit [DecidableEq Client] in
theorem appended_concat (history : History pg Client) (e : Label (store pg) Client) :
    appended (history ++ [e]) = appended history ++ e.writes.filterMap Write.auditRow := by
  rw [appended, List.flatMap_append, List.flatMap_singleton]
  rfl

theorem tells_of_trace (hvalid : spec.valid = true) (hcompiles : Compiler.compiles spec = true)
    (he : entity ∈ spec.entities) (hrouted : ∀ c, (calls c).Routed spec)
    (h : (protocol pg host sha256 calls).Trace (fun _ => .ready) init history phases contents)
    (id : Uuid) :
    List.Forall₂ (Tells spec) (transitionsOf pg (entityTable entity.name) id (appended history))
      (history.writesTo (stateColumns spec entity) (entityTable entity.name) id init) := by
  induction h with
  | nil =>
    rw [show appended ([] : History pg Client) = [] from rfl]
    exact .nil
  | @snoc history phases contents φ e hbefore hstep ih =>
    have hmoves : Moves pg host sha256 (calls e.client) (phases e.client) contents e.cmd e.reply
      e.writes φ := hstep
    rw [appended_concat, transitionsOf_append, History.writesTo_concat hbefore.contents_eq]
    exact List.rel_append ih (hmoves.tells hvalid hcompiles he (hrouted _))

/-- What was written to the columns of a record is what it has there. -/
structure Kept (columns : List String) (table : String) (id : Uuid) (init : Contents)
    (history : History pg Client) (contents : Contents) : Prop where
  unborn : contents.rows table id = none → History.writesTo columns table id init history = []
  current : ∀ first row, Born init history table id first → contents.rows table id = some row →
    ∀ column ∈ columns,
      row column = written column (first column) (History.writesTo columns table id init history)

theorem kept_of_trace (columns : List String)
    (h : (protocol pg host sha256 calls).Trace (fun _ => .ready) init history phases contents)
    (table : String) (id : Uuid) : Kept columns table id init history contents := by
  induction h with
  | nil =>
    constructor
    · intro _
      rfl
    · intro first row hborn hrow column _
      rcases hborn with hfirst | ⟨c, e, he, -⟩
      · rw [Option.some.inj (hrow.symm.trans hfirst)]
        rfl
      · exact absurd he List.not_mem_nil
  | @snoc history phases contents φ e htrace hstep ih =>
    have hmoves : Moves pg host sha256 (calls e.client) (phases e.client) contents e.cmd e.reply
      e.writes φ := hstep
    have hwrites : History.writesTo columns table id init (history ++ [e]) =
        History.writesTo columns table id init history ++ writesTo columns table id contents e.writes :=
      History.writesTo_concat htrace.contents_eq
    cases hbefore : contents.rows table id with
    | none =>
      -- nothing is written to a record before it is there
      have hnone : writesTo columns table id contents e.writes = [] :=
        writesTo_eq_nil fun values hw => hmoves.sets hw hbefore
      rw [ih.unborn hbefore, hnone] at hwrites
      constructor
      · intro _
        exact hwrites
      · intro first row hborn hafter column _
        have hinsert := hmoves.inserted hbefore hafter
        rcases born_append.mp hborn with hborn | hmem
        · exact absurd hborn (unborn_of_trace htrace hbefore first)
        · obtain ⟨-, heq⟩ := hmoves.inserts hmem
          rw [heq, List.mem_singleton] at hinsert
          cases hinsert
          rw [hwrites]
          rfl
    | some before =>
      have hinsert : ∀ row, Write.insertRow table id row ∉ e.writes := by
        intro row hmem
        exact absurd (hbefore.symm.trans (hmoves.inserts hmem).1) (by simp)
      obtain ⟨after, hafter, hcolumns⟩ := @row_applyAll _ _ _ columns _ _ hinsert _ hbefore
      constructor
      · intro hnone
        exact absurd (hnone.symm.trans hafter) (by simp)
      · intro first row hborn hrow column hcolumn
        have hfirst : Born init history table id first :=
          (born_append.mp hborn).resolve_right (hinsert first)
        obtain rfl := Option.some.inj (hafter.symm.trans hrow)
        rw [hcolumns column hcolumn, ih.current first before hfirst hbefore column hcolumn, hwrites,
          written_append]

/-- The transition records of a record are the writes to its state columns, in the order of the
chain, and replaying them from its beginning gives the state that it has. -/
theorem log_refines_states (hvalid : spec.valid = true) (hcompiles : Compiler.compiles spec = true)
    (he : entity ∈ spec.entities) (hrouted : ∀ c, (calls c).Routed spec)
    {schedule : List (Client × Choice)} {W : World (store pg) Client Thrown Unit}
    (hrun : World.run schedule (server pg host sha256 calls init) = some W) (id : Uuid) :
    ∃ rows, W.contents.audit = init.audit ++ rows ∧
      (Sequence init.audit → W.contents.audit.Pairwise fun r s => r.seq < s.seq) ∧
      List.Forall₂ (Tells spec) (transitionsOf pg (entityTable entity.name) id rows)
        (History.writesTo (stateColumns spec entity) (entityTable entity.name) id init W.history) ∧
      ∀ first row, Born init W.history (entityTable entity.name) id first →
        W.contents.rows (entityTable entity.name) id = some row →
        ∀ column ∈ stateColumns spec entity, row column =
          replay spec column (first column) (transitionsOf pg (entityTable entity.name) id rows) := by
  obtain ⟨phases, htrace⟩ := trace_of_run hrun
  have htells := tells_of_trace hvalid hcompiles he hrouted htrace id
  refine ⟨appended W.history, audit_eq_appended htrace.contents_eq, ?_, htells, ?_⟩
  · intro hinit
    exact (sequence_of_trace htrace hinit).pairwise_seq
  · intro first row hborn hrow column hcolumn
    rw [replay_eq_written htells]
    exact (kept_of_trace _ htrace _ id).current first row hborn hrow column hcolumn

/-- A bot has closed the risk of a vendor. -/
theorem log_refines_states_closed :
    ∃ W, World.run (List.replicate 23 ((), untroubled)) (server postgresText plainHost lengthHash
        (fun _ => .transition (fire riskReview close "agent:bot")) pendingVendor) = some W ∧
      ∃ rows, W.contents.audit = pendingVendor.audit ++ rows ∧
        (Sequence pendingVendor.audit → W.contents.audit.Pairwise fun r s => r.seq < s.seq) ∧
        List.Forall₂ (Tells vendorApp) (transitionsOf postgresText "vendor" vendorId rows)
          (History.writesTo ["status", "risk"] "vendor" vendorId pendingVendor W.history) ∧
        ∀ first row, Born pendingVendor W.history "vendor" vendorId first →
          W.contents.rows "vendor" vendorId = some row → ∀ column ∈ ["status", "risk"],
            row column = replay vendorApp column (first column)
              (transitionsOf postgresText "vendor" vendorId rows) := by
  obtain ⟨W, hrun, -⟩ := Option.map_eq_some_iff.mp closed_by_bot
  have he : vendor ∈ vendorApp.entities := List.mem_singleton_self _
  exact ⟨W, hrun, log_refines_states valid_vendorApp (by decide) he
    (fun _ => .transition (by decide) (by decide) (by decide) (by decide)) hrun vendorId⟩

end Runs

end OpenRupiv.Runtime
