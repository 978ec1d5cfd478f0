import OpenRupiv.Runtime.StateLog

/-!
# Subjects in the audit log

The subject of an audit record is made of the path of the request.  Filtering the log by one
subject finds the audit records about a record as long as all requests spell its id alike.
-/

namespace OpenRupiv.Runtime

open Js Lib Spec Audit

variable {pg : Postgres} {host : Host} {sha256 : String → String} {spec : AppSpec}
  {table spelling : String} {id : Uuid}

/-- The table and the id in the path of a call, the id as it is spelled there. -/
def Call.path : Call → Option (String × String)
  | .transition i => some (i.table, i.recordId)
  | .create _ => none
  | .update r => some (r.table, r.recordId)

/-- The database takes the path for this record. -/
def Call.Addresses (pg : Postgres) (table : String) (id : Uuid) (call : Call) : Prop :=
  ∃ spelling, call.path = some (table, spelling) ∧ pg.uuid spelling = some id

def subjectOf (path : String × String) : Text := ofString (path.1 ++ ":" ++ path.2)

theorem subject_of_appends_none {rows : List AuditRow} {input : AuditRecordInput} {row : AuditRow}
    (h : Appends pg sha256 rows input row) (hnone : input.subject = none) : row.subject = none := by
  obtain ⟨now, hnow⟩ := h
  obtain ⟨row', heq, hrow, -⟩ := appendInTransaction_eq_some hnow
  obtain rfl : row = row' := List.head_eq_of_cons_eq (List.append_cancel_left heq)
  have hsubject := hrow.subject
  rw [recordFor, appendRecord, hnone] at hsubject
  exact (Option.some.inj hsubject).symm

theorem subject_rejectionRecord {r : EntityRequest} {mode : Mode} {error : RuntimeError}
    {rows : List AuditRow} {row : AuditRow} {call : Call} (hcall : call.request = some (r, mode))
    (h : Appends pg sha256 rows (r.rejectionRecord mode error) row) :
    row.subject = call.path.map subjectOf := by
  cases call with
  | transition i => exact absurd hcall (by simp [Call.request])
  | create r' =>
    obtain ⟨rfl, rfl⟩ := Prod.mk.inj (Option.some.inj hcall)
    exact subject_of_appends_none h rfl
  | update r' =>
    obtain ⟨rfl, rfl⟩ := Prod.mk.inj (Option.some.inj hcall)
    exact h.shows.subject _ rfl

/-- Every record that a call appends has the path of the call as its subject. -/
theorem Moves.subject {call : Call} {φ φ' : Phase} {κ : Contents} {k : Cmd (store pg)}
    {r : Option k.Reply} {ws : List Write} (h : Moves pg host sha256 call φ κ k r ws φ')
    {row : AuditRow} (hrow : row ∈ ws.filterMap Write.auditRow) :
    row.subject = call.path.map subjectOf := by
  cases h with
  | failed | unrolled | quiet | clock | log | invoked | returned | looked | asked | locked
  | duplicate | created | updated | absent => exact absurd hrow List.not_mem_nil
  | granted hcall _ happends | denied hcall _ happends =>
    obtain rfl := List.mem_singleton.mp hrow
    rw [hcall]
    exact (ExecuteTransitionInput.concerns_decisionRecord happends.shows).subject
  | reported hcall happends =>
    obtain rfl := List.mem_singleton.mp hrow
    rw [hcall]
    exact (ExecuteTransitionInput.concerns_duplicateRecord happends.shows).subject
  | rejected hcall _ _ happends =>
    obtain rfl := List.mem_singleton.mp hrow
    exact subject_rejectionRecord hcall happends
  | effect hcall _ _ _ heffect =>
    rw [hcall]
    cases heffect with
    | plain _ happends | final _ _ _ _ happends =>
      obtain rfl := List.mem_singleton.mp hrow
      exact (ExecuteTransitionInput.concerns_transitionRecord happends.shows).subject
    | pending _ _ _ _ happends =>
      obtain rfl := List.mem_singleton.mp hrow
      exact (ExecuteTransitionInput.concerns_approvalRecord happends.shows).subject

section Runs

variable {Client : Type} [DecidableEq Client] {calls : Client → Call} {init contents : Contents}
  {history : History pg Client} {phases : Client → Phase}

open Classical in
noncomputable def recordsAbout (calls : Client → Call) (table : String) (id : Uuid)
    (history : History pg Client) : List AuditRow :=
  appended (history.filter fun e => (calls e.client).Addresses pg table id)

/-- The audit records with a subject. -/
def withSubject (subject : Text) (rows : List AuditRow) : List AuditRow :=
  rows.filter fun row => row.subject = some subject

theorem subject_of_trace
    (h : (protocol pg host sha256 calls).Trace (fun _ => .ready) init history phases contents) :
    ∀ e ∈ history, ∀ row ∈ e.writes.filterMap Write.auditRow,
      row.subject = (calls e.client).path.map subjectOf := by
  induction h with
  | nil =>
    intro e he
    exact absurd he List.not_mem_nil
  | @snoc history phases contents φ e htrace hstep ih =>
    have hmoves : Moves pg host sha256 (calls e.client) (phases e.client) contents e.cmd e.reply
      e.writes φ := hstep
    intro e' he'
    rcases List.mem_append.mp he' with he' | he'
    · exact ih e' he'
    · obtain rfl := List.mem_singleton.mp he'
      exact fun row hrow => hmoves.subject hrow

omit [DecidableEq Client] in
theorem appended_filter {p : Label (store pg) Client → Bool} {q : AuditRow → Bool}
    (h : ∀ e ∈ history, ∀ row ∈ e.writes.filterMap Write.auditRow, q row = p e) :
    appended (history.filter p) = (appended history).filter q := by
  induction history with
  | nil => rfl
  | cons e history ih =>
    have hrest := ih fun e' he' => h e' (List.mem_cons_of_mem e he')
    have hentry : (e.writes.filterMap Write.auditRow).filter q =
        if p e then e.writes.filterMap Write.auditRow else [] := by
      split
      · rename_i hp
        exact List.filter_eq_self.mpr fun row hrow => (h e List.mem_cons_self row hrow).trans hp
      · rename_i hp
        refine List.filter_eq_nil_iff.mpr fun row hrow => ?_
        rwa [h e List.mem_cons_self row hrow]
    have happended : (appended (e :: history)).filter q =
        (e.writes.filterMap Write.auditRow).filter q ++ (appended history).filter q := by
      rw [appended, List.flatMap_cons, List.filter_append]
      rfl
    rw [happended, hentry, ← hrest, List.filter_cons]
    split
    · rfl
    · exact (List.nil_append _).symm

theorem colon_notMem_path (hvalid : spec.valid = true) {call : Call} (hrouted : call.Routed spec)
    {path : String × String} (hpath : call.path = some path) : ':' ∉ path.1.toList := by
  cases hrouted with
  | transition hworkflow hentity =>
    obtain rfl := Option.some.inj hpath
    exact colon_not_mem_entityTable hvalid (List.mem_of_find?_eq_some hentity)
  | create hentity => exact absurd hpath (by simp [Call.path])
  | update hentity =>
    obtain rfl := Option.some.inj hpath
    exact colon_not_mem_entityTable hvalid hentity

/-- The calls that have a record about the record written spell its id in one way. -/
theorem recordsAbout_eq_withSubject {entity : EntityDef} (hvalid : spec.valid = true)
    (he : entity ∈ spec.entities) (hrouted : ∀ c, (calls c).Routed spec)
    (hid : pg.uuid spelling = some id)
    (hsame : ∀ c, (calls c).Addresses pg (entityTable entity.name) id →
      (calls c).path = some (entityTable entity.name, spelling))
    (h : (protocol pg host sha256 calls).Trace (fun _ => .ready) init history phases contents) :
    recordsAbout calls (entityTable entity.name) id history =
      withSubject (subjectOf (entityTable entity.name, spelling)) (appended history) := by
  have hsubject := subject_of_trace h
  -- an entry's records have the subject exactly when its call addresses the record
  have hentry : ∀ e ∈ history, ∀ row ∈ e.writes.filterMap Write.auditRow,
      row.subject = some (subjectOf (entityTable entity.name, spelling)) ↔
        (calls e.client).Addresses pg (entityTable entity.name) id := by
    intro e hmem row hrow
    rw [hsubject e hmem row hrow]
    constructor
    · intro heq
      obtain ⟨⟨table, other⟩, hpath, heq⟩ := Option.map_eq_some_iff.mp heq
      obtain ⟨rfl, rfl⟩ := subject_inj (colon_notMem_path hvalid (hrouted e.client) hpath)
        (colon_not_mem_entityTable hvalid he) (ofString_inj.mp heq)
      exact ⟨_, hpath, hid⟩
    · intro haddresses
      rw [hsame e.client haddresses]
      rfl
  refine appended_filter fun e hmem row hrow => ?_
  exact decide_eq_decide.mpr (hentry e hmem row hrow)

/-- Filtering the log by one subject finds the records about a record, all of them and no others,
when all requests for it spell its id alike. -/
theorem one_subject {entity : EntityDef} (hvalid : spec.valid = true)
    (he : entity ∈ spec.entities) (hrouted : ∀ c, (calls c).Routed spec)
    (hid : pg.uuid spelling = some id)
    (hsame : ∀ c, (calls c).Addresses pg (entityTable entity.name) id →
      (calls c).path = some (entityTable entity.name, spelling))
    {schedule : List (Client × Choice)} {W : World (store pg) Client Thrown Unit}
    (hrun : World.run schedule (server pg host sha256 calls init) = some W) :
    ∃ rows, W.contents.audit = init.audit ++ rows ∧
      withSubject (subjectOf (entityTable entity.name, spelling)) rows =
        recordsAbout calls (entityTable entity.name) id W.history ∧
      ∀ row ∈ recordsAbout calls (entityTable entity.name) id W.history,
        row.subject = some (subjectOf (entityTable entity.name, spelling)) := by
  obtain ⟨phases, htrace⟩ := trace_of_run hrun
  have hfilter := recordsAbout_eq_withSubject hvalid he hrouted hid hsame htrace
  refine ⟨appended W.history, audit_eq_appended htrace.contents_eq, hfilter.symm, ?_⟩
  intro row hrow
  rw [hfilter] at hrow
  exact of_decide_eq_true (List.mem_filter.mp hrow).2

/-- A bot closes the risk of a vendor, and no one else asks for anything. -/
theorem one_subject_closed :
    ∃ W, World.run (List.replicate 23 ((), untroubled)) (server postgresText plainHost lengthHash
        (fun _ => .transition (fire riskReview close "agent:bot")) pendingVendor) = some W ∧
      ∃ rows, W.contents.audit = pendingVendor.audit ++ rows ∧
        withSubject (subjectOf ("vendor", vendorId)) rows =
          recordsAbout (fun _ => .transition (fire riskReview close "agent:bot")) "vendor" vendorId
            W.history ∧
        ∀ row ∈ recordsAbout (fun _ => .transition (fire riskReview close "agent:bot")) "vendor"
            vendorId W.history,
          row.subject = some (subjectOf ("vendor", vendorId)) := by
  obtain ⟨W, hrun, -⟩ := Option.map_eq_some_iff.mp closed_by_bot
  have he : vendor ∈ vendorApp.entities := List.mem_singleton_self _
  exact ⟨W, hrun, one_subject valid_vendorApp he
    (fun _ => .transition (by decide) (by decide) (by decide) (by decide)) (by decide +kernel)
    (fun _ _ => rfl) hrun⟩

private def closeByHand (recordId : String) : EntityRequest where
  model := buildEntityModel vendorApp vendor
  detailPage := pageFor vendorApp vendor.name .detail
  listPage := pageFor vendorApp vendor.name .list
  body := some (.obj [(ofString "risk", .scalar (.str (ofString "closed")))])
  source := .json
  recordId
  session := some { sub := "kim", roles := [] }

private def eitherCase : Bool → Call
  | false => .update (closeByHand vendorId)
  | true => .update (closeByHand "6F9619FF-8B86-4011-B42D-00CF4FC964FF")

private def inTurn : List (Bool × Choice) :=
  List.replicate 8 (false, untroubled) ++ List.replicate 8 (true, untroubled)

private theorem rejected_twice :
    (World.run inTurn (server postgresText plainHost lengthHash eitherCase noVendor)).map
        (fun W => W.contents.audit.map AuditRow.subject) =
      some [some (subjectOf ("vendor", vendorId)),
        some (subjectOf ("vendor", "6F9619FF-8B86-4011-B42D-00CF4FC964FF"))] := by
  decide +kernel

/-- Both requests are about the vendor, and their records have different subjects. -/
theorem two_subjects :
    (∀ c, (eitherCase c).Routed vendorApp ∧
        (eitherCase c).Addresses postgresText "vendor" vendorId) ∧
      ∃ W, World.run inTurn
          (server postgresText plainHost lengthHash eitherCase noVendor) = some W ∧
        ¬∃ subject, ∀ row ∈ recordsAbout eitherCase "vendor" vendorId W.history,
          row.subject = some subject := by
  have haddresses : ∀ c, (eitherCase c).Addresses postgresText "vendor" vendorId := by
    intro c
    cases c with
    | false => exact ⟨_, rfl, by decide +kernel⟩
    | true => exact ⟨_, rfl, by decide +kernel⟩
  refine ⟨fun c => ⟨?_, haddresses c⟩, ?_⟩
  · cases c with
    | false => exact .update (List.mem_singleton_self _)
    | true => exact .update (List.mem_singleton_self _)
  · obtain ⟨W, hrun, hsubjects⟩ := Option.map_eq_some_iff.mp rejected_twice
    obtain ⟨phases, htrace⟩ := trace_of_run hrun
    have hrows : recordsAbout eitherCase "vendor" vendorId W.history = W.contents.audit := by
      rw [audit_eq_appended htrace.contents_eq, recordsAbout,
        List.filter_eq_self.mpr fun e _ => by simp [haddresses]]
      rfl
    refine ⟨W, hrun, fun h => ?_⟩
    obtain ⟨subject, hsame⟩ := h
    rw [hrows] at hsame
    have hall : ∀ s ∈ W.contents.audit.map AuditRow.subject, s = some subject := by
      intro s hs
      obtain ⟨row, hrow, rfl⟩ := List.mem_map.mp hs
      exact hsame row hrow
    rw [hsubjects] at hall
    have hlower := hall _ List.mem_cons_self
    have hupper := hall _ (List.mem_cons_of_mem _ List.mem_cons_self)
    exact absurd (hlower.trans hupper.symm) (by decide)

end Runs

end OpenRupiv.Runtime
