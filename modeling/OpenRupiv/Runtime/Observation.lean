import OpenRupiv.Lib.Noninterference
import OpenRupiv.Runtime.Calls

/-!
# What a request sees

The requests of people read and write the entity tables and the approvals.  They append to the audit
log too, and read its tail for this, but nothing that they do afterwards depends on what they find
there: a request that is run beside another audit log does the same.
-/

namespace OpenRupiv.Runtime

open Js Lib Spec Audit

/-- A statement on the entity tables or the approvals; the lock of the chain is one of them. -/
def Stmt.onRecords : Stmt → Bool
  | .selectTail | .insertAudit _ _ | .insertProposal _ _ _ _ _ _ _ _ | .insertTask _ _ _ _ _
  | .selectTask _ _ => false
  | _ => true

/-- A write beside the entity tables and the approvals. -/
def Write.aside : Write → Bool
  | .insertAudit _ | .insertProposal _ | .insertTask _ => true
  | _ => false

namespace Records

structure Same (κ κ' : Contents) : Prop where
  rows : κ.rows = κ'.rows
  approvals : κ.approvals = κ'.approvals

inductive SameWrite : Write → Write → Prop where
  | audit {row row'} : SameWrite (.insertAudit row) (.insertAudit row')
  | same {w} : SameWrite w w

inductive SameStmt : Stmt → Stmt → Prop where
  | tail : SameStmt .selectTail .selectTail
  | audit {record record' now} : SameStmt (.insertAudit record now) (.insertAudit record' now)
  | records {s} : s.onRecords = true → SameStmt s s

inductive SameReply : (s s' : Stmt) → s.Reply → s'.Reply → Prop where
  | tail {r r'} : SameReply .selectTail .selectTail r r'
  | audit {record record' now} : SameReply (.insertAudit record now) (.insertAudit record' now) () ()
  | records {s} {r : s.Reply} : s.onRecords = true → SameReply s s r r

variable {pg : Postgres} {choice : Choice} {κ κ' : Contents} {s : Stmt}

theorem exec_congr (hs : s.onRecords = true) (h : Same κ κ') :
    s.exec pg choice κ = s.exec pg choice κ' := by
  cases s with
  | selectTail | insertAudit | insertProposal | insertTask | selectTask =>
    exact absurd hs (by simp [Stmt.onRecords])
  | _ => simp only [Stmt.exec, Contents.approvers, h.rows, h.approvals]

theorem locks_congr (h : Same κ κ') : s.locks pg choice κ = s.locks pg choice κ' := by
  cases s <;> simp only [Stmt.locks, h.rows]

end Records

open Records in
/-- The entity tables and the approvals are observed. -/
def records (pg : Postgres) : Observation (store pg) where
  Same := Same
  SameWrite := SameWrite
  SameStmt := SameStmt
  SameReply := SameReply
  hidden w := w.aside = true
  settled s := ∀ record now, s ≠ .insertAudit record now
  apply := by
    intro κ κ' w w' hw h
    cases hw with
    | audit => exact ⟨h.rows, h.approvals⟩
    | same =>
      cases w <;> exact ⟨by simp [Contents.apply, Contents.setRow, h.rows],
        by simp [Contents.apply, Contents.setRow, h.approvals]⟩
  hide := by
    intro κ κ' w hw h
    cases w with
    | insertAudit | insertProposal | insertTask => exact ⟨h.rows, h.approvals⟩
    | _ => exact absurd hw (by simp [Write.aside])
  locks := by
    intro choice κ κ' s s' hs h
    cases hs with
    | tail | audit => rfl
    | records hs => exact locks_congr h
  exec := by
    intro choice κ κ' s s' r r' ws ws' hs h hexec hexec'
    cases hs with
    | tail =>
      obtain ⟨rfl, rfl⟩ := Prod.mk.inj (Option.some.inj hexec)
      obtain ⟨rfl, rfl⟩ := Prod.mk.inj (Option.some.inj hexec')
      exact ⟨.tail, .nil⟩
    | audit =>
      simp only [Stmt.exec, Option.bind_eq_bind, Option.bind_eq_some_iff, Option.pure_def,
        Option.some.injEq, Prod.mk.injEq] at hexec hexec'
      obtain ⟨row, -, rows, -, -, rfl⟩ := hexec
      obtain ⟨row', -, rows', -, -, rfl⟩ := hexec'
      exact ⟨.audit, .cons .audit .nil⟩
    | records hs =>
      have heq : s.exec pg choice κ = s.exec pg choice κ' := exec_congr hs h
      rw [show (store pg).exec choice κ s = s.exec pg choice κ from rfl, heq] at hexec
      obtain ⟨rfl, rfl⟩ := Prod.mk.inj (Option.some.inj (hexec.symm.trans hexec'))
      exact ⟨.records hs, List.forall₂_same.mpr fun _ _ => .same⟩
  refuses := by
    intro choice κ κ' s s' hsettled hs h
    cases hs with
    | tail => rfl
    | audit => exact absurd rfl (hsettled _ _)
    | records hs =>
      have heq : s.exec pg choice κ = s.exec pg choice κ' := exec_congr hs h
      exact congrArg Option.isSome heq
  unlocked := by
    intro choice κ s s' hsettled hs
    cases hs with
    | tail => exact absurd (fun _ _ => by simp) hsettled
    | audit => rfl
    | records hs =>
      apply absurd _ hsettled
      intro record now heq
      rw [heq] at hs
      exact absurd hs (by simp [Stmt.onRecords])

/-- Both return, with values that stand for each other, or both throw the same. -/
inductive SameEnd {ε α : Type} (S : α → α → Prop) : Except ε α → Except ε α → Prop where
  | ok {a a'} : S a a' → SameEnd S (.ok a) (.ok a')
  | error {e} : SameEnd S (.error e) (.error e)

/-- The programs do the same on the records. -/
abbrev Blind {pg : Postgres} {ε α : Type} (S : α → α → Prop) (p p' : Async pg ε α) : Prop :=
  (records pg).Similar (SameEnd S) p p'

section Rules

variable {pg : Postgres} {ε α β : Type} {S S' : α → α → Prop} {T : β → β → Prop}

theorem blind_pure {a a' : α} (h : S a a') : Blind S (pure a : Async pg ε α) (pure a') :=
  .ret (.ok h)

theorem blind_throw {e : ε} : Blind S (.throw e : Async pg ε α) (.throw e) :=
  .throw .error

theorem Blind.bind {p p' : Async pg ε β} {f f' : β → Async pg ε α} (h : Blind T p p')
    (hf : ∀ b b', T b b' → Blind S (f b) (f' b')) : Blind S (p >>= f) (p' >>= f') := by
  apply Observation.Similar.bind h
  · intro b b' hb
    cases hb with
    | ok hb => exact hf b b' hb
  · intro e e' he
    cases he
    exact .error

theorem Blind.result {ε' : Type} {p p' : Async pg ε α} (h : Blind S p p') :
    Blind (SameEnd S) (p.result : Async pg ε' (Except ε α)) p'.result :=
  Observation.Similar.result h fun _ _ hr => .ok hr

theorem blind_service_bind [Fault ε] {k : Cmd (store pg)} {f f' : k.Reply → Async pg ε α}
    (hk : k.isStmt = false) (hf : ∀ r, Blind S (f r) (f' r)) :
    Blind S (Prog.perform k >>= f) (Prog.perform k >>= f') :=
  Observation.similar_service_bind hk hf .error

theorem blind_ext_bind [Fault ε] {x : Ext} {f f' : x.Answer → Async pg ε α}
    (hf : ∀ r, Blind S (f r) (f' r)) : Blind S (ext x >>= f) (ext x >>= f') :=
  blind_service_bind (k := .ext x) rfl hf

theorem blind_ext [Fault ε] {x : Ext} : Blind Eq (ext x : Async pg ε x.Answer) (ext x) := by
  apply Observation.Similar.call (.service rfl)
  intro r r' h
  obtain rfl := h.service_eq rfl
  cases r with
  | none => exact blind_throw
  | some r => exact blind_pure rfl

theorem blind_tx_bind [Fault ε] {s : Stmt} {f f' : s.Reply → Async pg ε α}
    (hs : s.onRecords = true) (hf : ∀ r, Blind S (f r) (f' r)) :
    Blind S (tx s >>= f) (tx s >>= f') := by
  apply Observation.similar_tx_bind (Records.SameStmt.records hs) _ .error
  intro r r' h
  cases h with
  | records => exact hf r
  | tail | audit => exact absurd hs (by simp [Stmt.onRecords])

theorem blind_deleteApprovals [Fault ε] {table id : String} :
    Blind Eq (tx (.deleteApprovals table id) : Async pg ε Unit) (tx (.deleteApprovals table id)) := by
  apply Observation.Similar.call (.tx (Records.SameStmt.records rfl))
  intro r r' h
  cases h with
  | service _ hk => exact absurd hk (by simp [Cmd.isStmt])
  | tx hr =>
    cases hr with
    | none => exact blind_throw
    | some _ => exact blind_pure rfl

theorem blind_query_bind [Fault ε] {s : Stmt} {f f' : s.Reply → Async pg ε α}
    (hs : s.onRecords = true) (hf : ∀ r, Blind S (f r) (f' r)) :
    Blind S (query s >>= f) (query s >>= f') := by
  apply Observation.similar_query_bind (Records.SameStmt.records hs) _ .error
  intro r r' h
  cases h with
  | records => exact hf r
  | tail | audit => exact absurd hs (by simp [Stmt.onRecords])

theorem blind_check [Raises ε] {x : Except RuntimeError α} :
    Blind Eq (check x : Async pg ε α) (check x) := by
  unfold check
  cases x with
  | ok a => exact blind_pure rfl
  | error error => exact blind_throw

theorem blind_check_bind [Raises ε] {x : Except RuntimeError β} {f f' : β → Async pg ε α}
    (hf : ∀ b, Blind S (f b) (f' b)) : Blind S (check x >>= f) (check x >>= f') := by
  apply blind_check.bind
  intro b b' h
  rw [← h]
  exact hf b

theorem blind_transaction [Fault ε] {fn fn' : Async pg ε α} (h : Blind S fn fn') :
    Blind S (transaction fn) (transaction fn') := by
  apply blind_service_bind rfl
  intro _
  apply Blind.bind
  · apply Blind.result
    apply blind_service_bind rfl
    intro _
    apply h.bind
    intro value value' hvalue
    exact blind_service_bind rfl fun _ => blind_pure hvalue
  · intro outcome outcome' houtcome
    cases houtcome with
    | ok hvalue => exact blind_service_bind rfl fun _ => blind_pure hvalue
    | error =>
      apply Observation.similar_attempt_bind rfl
      exact blind_service_bind rfl fun _ => blind_throw

end Rules

section Requests

variable {pg : Postgres} {ε : Type} {host : Host} {sha256 : String → String}

/-- The records of two appends have nothing in common. -/
abbrev Any (_ _ : AuditRecord) : Prop := True

theorem blind_appendInTransaction [Fault ε] {logged : Bool} {input : AuditRecordInput} :
    Blind Any (appendInTransaction sha256 logged input : Async pg ε AuditRecord)
      (appendInTransaction sha256 logged input) := by
  have hscrubbed : ∀ input, Blind Any (appendScrubbed sha256 input : Async pg ε AuditRecord)
      (appendScrubbed sha256 input) := by
    intro input
    apply blind_tx_bind rfl
    intro _
    apply Observation.similar_tx_bind Records.SameStmt.tail _ .error
    intro tail tail' _
    apply blind_ext_bind
    intro now
    apply Observation.similar_tx_bind Records.SameStmt.audit _ .error
    intro _ _ _
    exact blind_pure trivial
  unfold appendInTransaction
  dsimp only
  split
  · exact blind_ext_bind fun _ => hscrubbed _
  · exact hscrubbed _

theorem blind_append [Fault ε] {input : AuditRecordInput} :
    Blind Any (append sha256 input : Async pg ε AuditRecord) (append sha256 input) :=
  blind_transaction blind_appendInTransaction

theorem blind_appendOrFail {input : AuditRecordInput} :
    Blind Eq (appendOrFail sha256 input : Async pg Thrown Unit) (appendOrFail sha256 input) := by
  apply blind_append.result.bind
  intro outcome outcome' houtcome
  cases houtcome with
  | ok _ => exact blind_pure rfl
  | error => exact blind_ext_bind fun _ => blind_throw

theorem blind_appendEach {inputs : List AuditRecordInput} :
    Blind Eq (appendEach sha256 inputs : Async pg Thrown Nat) (appendEach sha256 inputs) := by
  induction inputs with
  | nil => exact blind_pure rfl
  | cons input rest ih =>
    apply blind_appendOrFail.result.bind
    intro outcome outcome' houtcome
    apply ih.bind
    intro failures failures' hfailures
    rw [hfailures]
    cases houtcome with
    | ok _ => exact blind_pure rfl
    | error => exact blind_pure rfl

theorem blind_appendAllOrFail {inputs : List AuditRecordInput} :
    Blind Eq (appendAllOrFail sha256 inputs : Async pg Thrown Unit) (appendAllOrFail sha256 inputs) := by
  apply blind_appendEach.bind
  intro failures failures' hfailures
  rw [hfailures]
  split
  · exact blind_throw
  · exact blind_pure rfl

section Transitions

variable {i : ExecuteTransitionInput}

theorem blind_setState [Raises ε] : Blind Eq (setState i : Async pg ε Unit) (setState i) := by
  apply blind_check_bind
  intro _
  apply blind_check_bind
  intro _
  apply blind_tx_bind rfl
  intro rowCount
  split
  · exact blind_check
  · exact blind_deleteApprovals

theorem blind_applyTransition [Raises ε] {approvals : Option (Nat × Nat)} :
    Blind Eq (applyTransition sha256 i approvals : Async pg ε TransitionOutcome)
      (applyTransition sha256 i approvals) := by
  apply blind_setState.bind
  intro _ _ _
  apply blind_appendInTransaction.bind
  intro _ _ _
  apply blind_ext_bind
  intro _
  exact blind_pure rfl

theorem blind_approveTransition {rule : ApprovalRule} :
    Blind Eq (approveTransition sha256 i rule : Async pg Raised TransitionOutcome)
      (approveTransition sha256 i rule) := by
  apply blind_tx_bind rfl
  intro inserted
  split
  · exact blind_ext_bind fun _ => blind_throw
  apply blind_tx_bind rfl
  intro approvals
  split
  · exact blind_applyTransition
  apply blind_appendInTransaction.bind
  intro _ _ _
  apply blind_ext_bind
  intro _
  exact blind_pure rfl

theorem blind_transitionBody :
    Blind Eq (transitionBody host sha256 i : Async pg Raised TransitionOutcome)
      (transitionBody host sha256 i) := by
  apply blind_check_bind
  intro _
  apply blind_tx_bind rfl
  intro found
  apply blind_check_bind
  intro row
  apply blind_check_bind
  intro _
  apply blind_check_bind
  intro _
  split
  · exact blind_applyTransition
  · exact blind_approveTransition

theorem blind_ask {q : Question} :
    Blind Eq (ask sha256 i q : Async pg Thrown Unit) (ask sha256 i q) := by
  apply Blind.bind (T := Eq)
  · apply blind_ext_bind
    intro decision
    apply blind_ext_bind
    intro _
    apply blind_appendOrFail.bind
    intro _ _ _
    exact blind_pure rfl
  · intro decision decision' hdecision
    rw [hdecision]
    exact blind_check

theorem blind_executeTransition :
    Blind Eq (executeTransition host sha256 i : Async pg Thrown TransitionOutcome)
      (executeTransition host sha256 i) := by
  apply blind_check_bind
  intro _
  apply blind_query_bind rfl
  intro peek
  apply blind_check_bind
  intro peekRow
  apply blind_check_bind
  intro _
  apply Blind.bind (T := Eq)
  · apply blind_ask.bind
    intro _ _ _
    apply blind_check_bind
    intro _
    split
    · exact blind_ask
    · exact blind_pure rfl
  intro _ _ _
  apply (blind_transaction blind_transitionBody).result.bind
  intro outcome outcome' houtcome
  cases houtcome with
  | ok h =>
    rw [h]
    apply blind_appendAllOrFail.bind
    intro _ _ _
    exact blind_pure rfl
  | error =>
    apply blind_appendAllOrFail.bind
    intro _ _ _
    exact blind_throw

end Transitions

theorem blind_validateBodyAudited {r : EntityRequest} {mode : Mode} :
    Blind Eq (validateBodyAudited host sha256 r mode : Async pg Thrown _)
      (validateBodyAudited host sha256 r mode) := by
  unfold validateBodyAudited
  split
  · exact blind_pure rfl
  split
  · apply blind_appendOrFail.bind
    intro _ _ _
    exact blind_throw
  · exact blind_throw

theorem blind_post {r : EntityRequest} :
    Blind Eq (post host sha256 r : Async pg Thrown Response) (post host sha256 r) := by
  apply blind_validateBodyAudited.bind
  intro data data' hdata
  rw [hdata]
  apply Blind.bind (T := Eq)
  · apply blind_check_bind
    intro _
    apply blind_check_bind
    intro _
    apply blind_query_bind rfl
    intro row
    split
    · exact blind_pure rfl
    · exact blind_throw
  intro row row' hrow
  rw [hrow]
  exact blind_ext_bind fun _ => blind_pure rfl

theorem blind_put {r : EntityRequest} :
    Blind Eq (put host sha256 r : Async pg Thrown Response) (put host sha256 r) := by
  apply blind_check_bind
  intro _
  apply blind_validateBodyAudited.bind
  intro data data' hdata
  rw [hdata]
  apply blind_check_bind
  intro _
  apply blind_check_bind
  intro _
  apply blind_query_bind rfl
  intro row
  split
  · exact blind_throw
  · exact blind_ext_bind fun _ => blind_pure rfl

theorem blind_serve {call : Call} :
    Blind Eq (serve host sha256 call : Async pg Thrown Unit) (serve host sha256 call) := by
  have hhandle : Blind Eq (handle host sha256 call : Async pg Thrown Response)
      (handle host sha256 call) := by
    cases call with
    | transition i =>
      apply blind_executeTransition.bind
      intro outcome outcome' houtcome
      rw [houtcome]
      exact blind_pure rfl
    | create r => exact blind_post
    | update r => exact blind_put
  apply blind_ext_bind
  intro _
  apply hhandle.result.bind
  intro answer answer' hanswer
  cases hanswer with
  | @ok answer answer' h =>
    rw [h]
    exact blind_ext (x := .returned (.ok answer'))
  | @error e => exact blind_ext (x := .returned (.error e))

end Requests

end OpenRupiv.Runtime
