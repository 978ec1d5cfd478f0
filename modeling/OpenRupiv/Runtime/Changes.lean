import OpenRupiv.Runtime.History

/-!
# What a step does to a record

The row of a record and the approvals that were given for it change together, under the row lock.
Every step of every call either leaves both as they are or is one of the changes listed here.
-/

namespace OpenRupiv.Runtime

open Js Lib Spec Audit

/-- A record with its pending approvals. -/
structure RecordView where
  row : Option Row
  approvals : List Approval

def Contents.view (κ : Contents) (table : String) (id : Uuid) : RecordView where
  row := κ.rows table id
  approvals := κ.approvals.filter (·.about table id)

def approversOf (approvals : List Approval) (transition : String) : List String :=
  ((approvals.filter fun a => a.transition = transition).map (·.approverSub)).dedup

theorem Contents.approvers_eq (κ : Contents) (table : String) (id : Uuid) (transition : String) :
    κ.approvers table id transition = approversOf (κ.view table id).approvals transition := by
  rw [approvers, approversOf, view, List.filter_filter]
  congr 2
  exact List.filter_congr fun a _ => Bool.and_comm _ _

def ExecuteTransitionInput.moved (i : ExecuteTransitionInput) (row : Row) (now : Int) : Row :=
  setAll row [(i.stateColumn, .str (ofString i.transition.to)), ("updated_at", .date now)]

/-- The approvals are enough for the transition, the one that is given now included. -/
def ExecuteTransitionInput.Suffices (i : ExecuteTransitionInput) (id : Uuid)
    (approvals : List Approval) : Prop :=
  match i.transition.approval with
  | none => True
  | some rule => i.approval id ∉ approvals ∧
      rule.count ≤ (approversOf (approvals ++ [i.approval id]) i.transition.name).length

/-- What a call can make of a record. -/
inductive Changes (pg : Postgres) (host : Host) (call : Call) (table : String) (id : Uuid) :
    RecordView → RecordView → Prop where
  | kept {view} : Changes pg host call table id view view
  /-- The state changes, and the approvals are spent. -/
  | moved {i row approvals now} : call = .transition i → i.table = table →
      pg.uuid i.recordId = some id → i.checkRow host (some row) = .ok () →
      i.Suffices id approvals →
      Changes pg host call table id ⟨some row, approvals⟩ ⟨some (i.moved row now), []⟩
  | approved {i rule row approvals} : call = .transition i → i.table = table →
      pg.uuid i.recordId = some id → i.checkRow host (some row) = .ok () →
      i.transition.approval = some rule → i.approval id ∉ approvals →
      (approversOf (approvals ++ [i.approval id]) i.transition.name).length < rule.count →
      Changes pg host call table id ⟨some row, approvals⟩ ⟨some row, approvals ++ [i.approval id]⟩
  | created {r columns stored approvals now} : call = .create r → r.table = table →
      r.prepareInsert host = .ok columns → (columns.map Prod.fst).Nodup →
      encodeAll pg table columns = some stored →
      Changes pg host call table id ⟨none, approvals⟩
        ⟨some (setAll (pg.newRow table id now) stored), approvals⟩
  | updated {r columns stored row approvals now} : call = .update r → r.table = table →
      r.prepareUpdate host = .ok columns → pg.uuid r.recordId = some id →
      encodeAll pg table columns = some stored →
      Changes pg host call table id ⟨some row, approvals⟩
        ⟨some (setAll row (stored ++ [("updated_at", .date now)])), approvals⟩

section Writes

variable {pg : Postgres} {κ : Contents} {table : String} {id : Uuid}

@[simp] theorem view_insertAudit (row : AuditRow) :
    (κ.apply (.insertAudit row)).view table id = κ.view table id := rfl

theorem view_applyAll_of_not_touches {ws : List Write}
    (h : ∀ w ∈ ws, ¬w.touches (.row table id)) :
    ((store pg).applyAll κ ws).view table id = κ.view table id := by
  have hsame : SameRecord table id κ ((store pg).applyAll κ ws) :=
    (protection pg).applyAll (l := .row table id) h κ
  rw [Contents.view, Contents.view, hsame.1, hsame.2]

theorem view_insertRow {row : Row} :
    (κ.apply (.insertRow table id row)).view table id = ⟨some row, (κ.view table id).approvals⟩ := by
  simp [Contents.view, Contents.apply]

theorem rows_insertRow {row : Row} :
    ((store pg).applyAll κ [.insertRow table id row]).rows table id = some row :=
  congrArg RecordView.row (view_insertRow (κ := κ))

theorem view_setColumns {values : List (String × SqlValue)} :
    (κ.apply (.setColumns table id values)).view table id =
      ⟨(κ.view table id).row.map fun row => setAll row values, (κ.view table id).approvals⟩ := by
  simp [Contents.view, Contents.apply]

theorem view_insertApproval {a : Approval} (h : a.about table id = true) :
    (κ.apply (.insertApproval a)).view table id =
      ⟨(κ.view table id).row, (κ.view table id).approvals ++ [a]⟩ := by
  simp [Contents.view, Contents.apply, h]

theorem view_deleteApprovals {seen : List Approval}
    (h : ∀ a ∈ (κ.view table id).approvals, a ∈ seen) :
    (κ.apply (.deleteApprovals seen)).view table id = ⟨(κ.view table id).row, []⟩ := by
  simp only [Contents.view, Contents.apply, RecordView.mk.injEq, true_and]
  rw [List.filter_filter, List.filter_eq_nil_iff]
  intro a ha
  simp only [Bool.and_eq_true, decide_eq_true_eq, not_and, not_not]
  intro habout
  exact h a (List.mem_filter.mpr ⟨ha, habout⟩)

end Writes

section Steps

variable {pg : Postgres} {host : Host} {sha256 : String → String} {call : Call} {φ φ' : Phase}
  {κ : Contents} {k : Cmd (store pg)} {r : Option k.Reply} {ws : List Write} {table : String}
  {id : Uuid}

theorem approval_about (i : ExecuteTransitionInput) (id : Uuid) :
    (i.approval id).about i.table id = true := by
  simp [ExecuteTransitionInput.approval, Approval.about]

theorem ExecuteTransitionInput.EffectOf.touches {i : ExecuteTransitionInput} {uuid : Uuid}
    {outcome : TransitionOutcome} (h : i.EffectOf pg sha256 uuid κ ws outcome) {w : Write}
    (hw : w ∈ ws) (htouch : w.touches (.row table id)) : i.table = table ∧ uuid = id := by
  have hstate : ∀ {now : Int} {approvals : List Approval}, w ∈ i.stateWrites uuid now
      (approvals.filter (·.about i.table uuid)) → i.table = table ∧ uuid = id := by
    intro now approvals hmem
    have hlock := stateWrites_touches hmem htouch
    cases hlock
    exact ⟨rfl, rfl⟩
  have happroval : w = .insertApproval (i.approval uuid) → i.table = table ∧ uuid = id := by
    intro heq
    subst heq
    exact about_iff.mp htouch
  have haudit : ∀ {row}, w = .insertAudit row → i.table = table ∧ uuid = id := by
    intro row heq
    subst heq
    exact False.elim htouch
  cases h with
  | plain =>
    rcases List.mem_append.mp hw with hw | hw
    · exact hstate hw
    · exact haudit (List.mem_singleton.mp hw)
  | final =>
    rcases List.mem_append.mp hw with hw | hw
    · rcases List.mem_cons.mp hw with hw | hw
      · exact happroval hw
      · exact hstate hw
    · exact haudit (List.mem_singleton.mp hw)
  | pending =>
    rcases List.mem_cons.mp hw with hw | hw
    · exact happroval hw
    · exact haudit (List.mem_singleton.mp hw)

private theorem view_stateWrites {i : ExecuteTransitionInput} {now : Int} {row : Row}
    {seen : List Approval} (hrow : (κ.view i.table id).row = some row)
    (hseen : ∀ a ∈ (κ.view i.table id).approvals, a ∈ seen) :
    ((store pg).applyAll κ (i.stateWrites id now seen)).view i.table id =
      ⟨some (i.moved row now), []⟩ := by
  rw [ExecuteTransitionInput.stateWrites, Engine.applyAll_cons, Engine.applyAll_cons,
    Engine.applyAll_nil]
  show ((κ.apply _).apply (.deleteApprovals seen)).view i.table id = _
  rw [view_deleteApprovals, view_setColumns, hrow]
  · rfl
  · rw [view_setColumns]
    exact hseen

/-- An effect moves the record when the approvals suffice, and adds one to them otherwise. -/
theorem ExecuteTransitionInput.EffectOf.view {i : ExecuteTransitionInput}
    {outcome : TransitionOutcome} (h : i.EffectOf pg sha256 id κ ws outcome) {row : Row}
    (hrow : κ.rows i.table id = some row) :
    (i.Suffices id (κ.view i.table id).approvals ∧
      ∃ now, ((store pg).applyAll κ ws).view i.table id = ⟨some (i.moved row now), []⟩) ∨
    ∃ rule, i.transition.approval = some rule ∧ i.approval id ∉ (κ.view i.table id).approvals ∧
      (approversOf ((κ.view i.table id).approvals ++ [i.approval id]) i.transition.name).length <
        rule.count ∧
      ((store pg).applyAll κ ws).view i.table id =
        ⟨some row, (κ.view i.table id).approvals ++ [i.approval id]⟩ := by
  have habout := approval_about i id
  have hfresh : i.approval id ∉ κ.approvals → i.approval id ∉ (κ.view i.table id).approvals := by
    intro hnot hmem
    exact hnot (List.mem_filter.mp hmem).1
  have hcount : ((κ.apply (.insertApproval (i.approval id))).approvers i.table id i.transition.name) =
      approversOf ((κ.view i.table id).approvals ++ [i.approval id]) i.transition.name := by
    rw [Contents.approvers_eq, view_insertApproval habout]
  cases h with
  | @plain now audit hnone =>
    left
    refine ⟨by simp [ExecuteTransitionInput.Suffices, hnone], now, ?_⟩
    rw [(store pg).applyAll_append, Engine.applyAll_cons, Engine.applyAll_nil, view_insertAudit,
      view_stateWrites hrow]
    intro a ha
    exact ha
  | @final rule approvals now audit hrule hnot hlength hle =>
    left
    constructor
    · simp only [ExecuteTransitionInput.Suffices, hrule]
      refine ⟨hfresh hnot, ?_⟩
      rw [← hcount, hlength]
      exact hle
    · refine ⟨now, ?_⟩
      have hrow' : ((κ.apply (.insertApproval (i.approval id))).view i.table id).row = some row := by
        rw [view_insertApproval habout]
        exact hrow
      rw [List.cons_append, Engine.applyAll_cons, (store pg).applyAll_append, Engine.applyAll_cons,
        Engine.applyAll_nil, view_insertAudit, view_stateWrites hrow']
      intro a ha
      exact ha
  | @pending rule approvals audit hrule hnot hlength hlt =>
    right
    refine ⟨rule, hrule, hfresh hnot, ?_, ?_⟩
    · rw [← hcount, hlength]
      exact hlt
    · rw [Engine.applyAll_cons, Engine.applyAll_cons, Engine.applyAll_nil, view_insertAudit,
        view_insertApproval habout, ← hrow]
      rfl

theorem ExecuteTransitionInput.EffectOf.changes {i : ExecuteTransitionInput}
    {outcome : TransitionOutcome} (h : i.EffectOf pg sha256 id κ ws outcome)
    (huuid : pg.uuid i.recordId = some id) {row : Row} (hrow : κ.rows i.table id = some row)
    (hcheck : i.checkRow host (some row) = .ok ()) :
    Changes pg host (.transition i) i.table id (κ.view i.table id)
      (((store pg).applyAll κ ws).view i.table id) := by
  have hview : κ.view i.table id = ⟨some row, (κ.view i.table id).approvals⟩ := by
    rw [Contents.view, hrow]
  rcases h.view hrow with ⟨hsuffices, now, hmoved⟩ | ⟨rule, hrule, hfresh, hlt, happroved⟩
  · rw [hmoved, hview]
    exact .moved rfl rfl huuid hcheck hsuffices
  · rw [happroved, hview]
    exact .approved rfl rfl huuid hcheck hrule hfresh hlt

theorem Moves.changes (h : Moves pg host sha256 call φ κ k r ws φ') (table : String) (id : Uuid) :
    Changes pg host call table id (κ.view table id) (((store pg).applyAll κ ws).view table id) := by
  have hkept : (∀ w ∈ ws, ¬w.touches (.row table id)) → Changes pg host call table id
      (κ.view table id) (((store pg).applyAll κ ws).view table id) := by
    intro hnone
    rw [view_applyAll_of_not_touches hnone]
    exact .kept
  cases h with
  | failed | unrolled | quiet | clock | log | invoked | returned | looked | asked | locked
  | duplicate | absent => exact .kept
  | granted | denied | reported | rejected => exact .kept
  | @effect i κ row uuid ws outcome hcall huuid hrow hcheck heffect =>
    by_cases hsame : i.table = table ∧ uuid = id
    · obtain ⟨rfl, rfl⟩ := hsame
      rw [hcall]
      exact heffect.changes huuid hrow hcheck
    · apply hkept
      intro w hw htouch
      exact hsame (heffect.touches hw htouch)
  | @created request columns stored κ id' now hcall hprepare hnodup hstored hrow =>
    by_cases hsame : request.table = table ∧ id' = id
    · obtain ⟨rfl, rfl⟩ := hsame
      have hview : κ.view request.table id' = ⟨none, (κ.view request.table id').approvals⟩ := by
        rw [Contents.view, hrow]
      show Changes _ _ _ _ _ _ ((κ.apply (.insertRow _ _ _)).view request.table id')
      rw [view_insertRow, hview]
      exact .created hcall rfl hprepare hnodup hstored
    · apply hkept
      intro w hw htouch
      rw [List.mem_singleton.mp hw] at htouch
      exact hsame htouch
  | @updated request columns stored κ row uuid now hcall hprepare huuid hstored hrow =>
    by_cases hsame : request.table = table ∧ uuid = id
    · obtain ⟨rfl, rfl⟩ := hsame
      have hview : κ.view request.table uuid = ⟨some row, (κ.view request.table uuid).approvals⟩ := by
        rw [Contents.view, hrow]
      show Changes _ _ _ _ _ _ ((κ.apply (.setColumns _ _ _)).view request.table uuid)
      rw [view_setColumns, hview]
      exact .updated hcall rfl hprepare huuid hstored
    · apply hkept
      intro w hw htouch
      rw [List.mem_singleton.mp hw] at htouch
      exact hsame htouch

/-- A row is inserted where there was none, and nothing else is written with it. -/
theorem Moves.inserts (h : Moves pg host sha256 call φ κ k r ws φ') {row : Row}
    (hw : .insertRow table id row ∈ ws) :
    κ.rows table id = none ∧ ws = [.insertRow table id row] := by
  cases h with
  | failed | unrolled | quiet | clock | log | invoked | returned | looked | asked | locked
  | duplicate | absent => exact absurd hw List.not_mem_nil
  | granted | denied | reported | rejected | updated =>
    exact absurd (List.mem_singleton.mp hw) (by simp)
  | effect _ _ _ _ heffect =>
    cases heffect <;> exact absurd hw (by simp [ExecuteTransitionInput.stateWrites])
  | created _ _ _ _ hrow =>
    have heq := List.mem_singleton.mp hw
    cases heq
    exact ⟨hrow, rfl⟩

theorem Moves.sets_of_request (h : Moves pg host sha256 call φ κ k r ws φ') {q : EntityRequest}
    {mode : Mode} (hq : call.request = some (q, mode)) {values : List (String × SqlValue)}
    (hw : .setColumns table id values ∈ ws) :
    q.table = table ∧ call = .update q ∧ ∃ columns stored now,
      q.prepareUpdate host = .ok columns ∧ encodeAll pg table columns = some stored ∧
        values = stored ++ [("updated_at", .date now)] := by
  cases h with
  | failed | unrolled | quiet | clock | log | invoked | returned | looked | asked | locked
  | duplicate | absent => exact absurd hw List.not_mem_nil
  | granted | denied | reported | rejected | created =>
    exact absurd (List.mem_singleton.mp hw) (by simp)
  | effect hcall =>
    rw [hcall] at hq
    exact absurd hq (by simp [Call.request])
  | updated hcall hprepare huuid hstored hrow =>
    rw [hcall] at hq
    cases Option.some.inj hq
    cases List.mem_singleton.mp hw
    exact ⟨rfl, hcall, _, _, _, hprepare, hstored, rfl⟩

private theorem rows_applyAll_of_no_insert (hws : ∀ row, Write.insertRow table id row ∉ ws)
    (hrow : κ.rows table id = none) : ((store pg).applyAll κ ws).rows table id = none := by
  induction ws generalizing κ with
  | nil => exact hrow
  | cons w ws ih =>
    rw [Engine.applyAll_cons]
    apply ih
    · intro row hmem
      exact hws row (List.mem_cons_of_mem _ hmem)
    · by_cases htouch : w.touches (.row table id)
      · cases w with
        | insertRow table' id' row =>
          obtain ⟨rfl, rfl⟩ := htouch
          exact absurd List.mem_cons_self (hws row)
        | setColumns table' id' values =>
          obtain ⟨rfl, rfl⟩ := htouch
          simp [Contents.apply, hrow]
        | _ => exact hrow
      · rw [← (sameRecord_apply κ htouch).1]
        exact hrow

theorem Moves.inserted (h : Moves pg host sha256 call φ κ k r ws φ')
    (hbefore : κ.rows table id = none) {row : Row}
    (hafter : ((store pg).applyAll κ ws).rows table id = some row) :
    .insertRow table id row ∈ ws := by
  by_cases hws : ∃ row', Write.insertRow table id row' ∈ ws
  · obtain ⟨row', hmem⟩ := hws
    obtain ⟨-, heq⟩ := h.inserts hmem
    rw [heq, rows_insertRow] at hafter
    rwa [Option.some.inj hafter] at hmem
  · rw [rows_applyAll_of_no_insert (fun row' hmem => hws ⟨row', hmem⟩) hbefore] at hafter
    exact absurd hafter (by simp)

theorem Moves.stays (h : Moves pg host sha256 call φ κ k r ws φ')
    (hafter : ((store pg).applyAll κ ws).rows table id = none) : κ.rows table id = none := by
  have hchange := h.changes table id
  have hnone : (((store pg).applyAll κ ws).view table id).row = none := hafter
  show (κ.view table id).row = none
  generalize κ.view table id = view at hchange ⊢
  generalize ((store pg).applyAll κ ws).view table id = view' at hchange hnone
  cases hchange with
  | kept => exact hnone
  | _ => exact absurd hnone (by simp)

end Steps

/-- The row that a record had at first: it was there at the start, or it was inserted since. -/
def Born {pg : Postgres} {Client : Type} (init : Contents) (history : History pg Client)
    (table : String) (id : Uuid) (row : Row) : Prop :=
  init.rows table id = some row ∨ ∃ c, Committed history c (.insertRow table id row)

end OpenRupiv.Runtime
