import OpenRupiv.Lib.OwnHistory
import OpenRupiv.Runtime.History

/-!
# Concurrent appends

Any number of callers append to the audit log, in transactions of their own and inside longer ones
that also do other things and may fail.  The rows that are committed are numbered and linked, and
they are the records that the appends of the committed transactions returned.
-/

namespace OpenRupiv.Runtime

open Js Lib Lib.World Spec Audit

variable {pg : Postgres} {sha256 : String → String} {Client : Type}

/-- The records that a statement inserts. -/
def Stmt.records : Stmt → List AuditRecord
  | .insertAudit record _ => [record]
  | _ => []

/-- What a transaction does: it appends records and issues other statements.  An exception (`none`)
may be caught, and the transaction may throw in the end. -/
inductive Work where
  | done
  | fail
  | append (logged : Bool) (input : AuditRecordInput) (next : Option AuditRecord → Work)
  | statement (s : Stmt) (h : s.records = []) (next : Option s.Reply → Work)

/-- What the appends of a transaction returned, after some that were returned before. -/
def Work.run (sha256 : String → String) :
    Work → List AuditRecord → Async pg Thrown (List AuditRecord)
  | .done, returned => return returned
  | .fail, _ => .throw .fault
  | .append logged input next, returned => do
      let outcome ← (appendInTransaction sha256 logged input : Async pg Thrown AuditRecord).result
      (next outcome.toOption).run sha256 (returned ++ outcome.toOption.toList)
  | .statement s _ next, returned => do
      let outcome ← (tx s : Async pg Thrown s.Reply).result
      (next outcome.toOption).run sha256 returned

/-- A call of `append`, and one of `transaction` with `appendInTransaction` inside. -/
inductive AppendCall where
  | append (input : AuditRecordInput)
  | transaction (work : Work)

/-- The records that its appends return. -/
def AppendCall.run (sha256 : String → String) : AppendCall → Async pg Thrown (List AuditRecord)
  | .append input => do
      let record ← Runtime.append sha256 input
      return [record]
  | .transaction work => Runtime.transaction (work.run sha256 [])

/-- A caller makes one call after the other. -/
inductive Caller where
  | stop
  | call (c : AppendCall) (next : Option (List AuditRecord) → Caller)

def Caller.run (sha256 : String → String) : Caller → Async pg Thrown Unit
  | .stop => return ()
  | .call c next => do
      let outcome ← (c.run sha256 : Async pg Thrown (List AuditRecord)).result
      (next outcome.toOption).run sha256

def callersOf (pg : Postgres) (sha256 : String → String) (callers : Client → Caller)
    (contents : Contents) : World (store pg) Client Thrown Unit :=
  .start (fun c => (callers c).run sha256) contents

/-- What the history says of the transactions: the records that each client has inserted since it
began, unless a statement failed, and the records that are committed, with their clients. -/
structure Ledger (Client : Type) where
  pending : Client → Option (List AuditRecord)
  committed : List (Client × AuditRecord)

def pendingAfter (pending : Option (List AuditRecord)) :
    (k : Cmd (store pg)) → Option k.Reply → Option (List AuditRecord)
  | .begin, some _ => some []
  | .tx s, some _ => pending.map (· ++ s.records)
  | .tx _, none | .commit, _ | .rollback, _ | .release, some _ | .connect, some _ => none
  | _, _ => pending

def committedBy (pending : Option (List AuditRecord)) :
    (k : Cmd (store pg)) → Option k.Reply → List AuditRecord
  | .commit, some _ => pending.getD []
  | .query s, some _ => s.records
  | _, _ => []

section Ledgers

variable [DecidableEq Client]

def Ledger.enter (ledger : Ledger Client) (e : Label (store pg) Client) : Ledger Client where
  pending := Function.update ledger.pending e.client
    (pendingAfter (ledger.pending e.client) e.cmd e.reply)
  committed := ledger.committed ++
    (committedBy (ledger.pending e.client) e.cmd e.reply).map fun record => (e.client, record)

def ledgerOf (history : History pg Client) : Ledger Client :=
  history.foldl Ledger.enter { pending := fun _ => none, committed := [] }

/-- The row holds the record. -/
def Stores (pg : Postgres) (record : AuditRecord) (row : AuditRow) : Prop :=
  ∃ now, columnsOf pg.columns record now = some row

theorem stores_of_exec {s : Stmt} {choice : Choice} {κ : Contents} {r : s.Reply} {ws : List Write}
    (h : s.exec pg choice κ = some (r, ws)) :
    List.Forall₂ (Stores pg) s.records (ws.filterMap Write.auditRow) := by
  cases s with
  | insertAudit record now =>
    simp only [Stmt.exec, Option.bind_eq_bind, Option.bind_eq_some_iff, Option.pure_def,
      Option.some.injEq, Prod.mk.injEq] at h
    obtain ⟨row, hrow, _, -, -, rfl⟩ := h
    exact .cons ⟨now, hrow⟩ .nil
  | updateRecord table values id =>
    simp only [Stmt.exec, Option.bind_eq_bind, Option.bind_eq_some_iff] at h
    obtain ⟨uuid, -, -, -, stored, -, h⟩ := h
    split at h <;> cases Option.some.inj h <;> exact .nil
  | updateState table stateColumn state id =>
    simp only [Stmt.exec, Option.bind_eq_bind, Option.bind_eq_some_iff] at h
    obtain ⟨uuid, -, h⟩ := h
    split at h <;> cases Option.some.inj h <;> exact .nil
  | insertApproval table id transition approverSub =>
    simp only [Stmt.exec, Option.bind_eq_bind, Option.bind_eq_some_iff] at h
    obtain ⟨uuid, -, h⟩ := h
    split at h <;> cases Option.some.inj h <;> exact .nil
  | lockChainTail | selectTail =>
    cases Option.some.inj h
    exact .nil
  | selectById | selectForUpdate | countApprovals | deleteApprovals | selectTask =>
    simp only [Stmt.exec, Option.bind_eq_bind, Option.bind_eq_some_iff, Option.pure_def,
      Option.some.injEq, Prod.mk.injEq] at h
    obtain ⟨_, -, -, rfl⟩ := h
    exact .nil
  | insertRecord =>
    simp only [Stmt.exec, Option.bind_eq_bind, Option.bind_eq_some_iff, Option.pure_def,
      Option.some.injEq, Prod.mk.injEq] at h
    obtain ⟨_, -, _, -, _, -, -, rfl⟩ := h
    exact .nil
  | insertProposal =>
    simp only [Stmt.exec, Option.bind_eq_bind, Option.bind_eq_some_iff, Option.pure_def,
      Option.some.injEq, Prod.mk.injEq] at h
    obtain ⟨_, -, _, -, _, -, _, -, _, -, -, rfl⟩ := h
    exact .nil
  | insertTask =>
    simp only [Stmt.exec, Option.bind_eq_bind, Option.bind_eq_some_iff, Option.pure_def,
      Option.some.injEq, Prod.mk.injEq] at h
    obtain ⟨_, -, _, -, _, -, _, -, -, rfl⟩ := h
    exact .nil

/-- The session of a client and what the ledger says of it. -/
def Pends (pg : Postgres) : Session Write → Option (List AuditRecord) → Prop
  | .active ws, pending =>
      ∃ records, pending = some records ∧ List.Forall₂ (Stores pg) records (ws.filterMap Write.auditRow)
  | _, pending => pending = none

/-- The ledger is right about the sessions and about the log. -/
structure Balanced (init : Contents) (W : World (store pg) Client Thrown Unit) : Prop where
  pending : ∀ c, Pends pg (W.session c) ((ledgerOf W.history).pending c)
  committed : ∃ rows, W.contents.audit = init.audit ++ rows ∧
    List.Forall₂ (fun entry => Stores pg entry.2) (ledgerOf W.history).committed rows

theorem ledgerOf_concat (history : History pg Client) (e : Label (store pg) Client) :
    ledgerOf (history ++ [e]) = (ledgerOf history).enter e :=
  List.foldl_concat ..

theorem Balanced.settle {init : Contents} {W : World (store pg) Client Thrown Unit}
    (h : Balanced init W) {c : Client} {k : Cmd (store pg)}
    {next : Option k.Reply → Async pg Thrown Unit} {reply : Option k.Reply}
    {session : Session Write} {locks : List Lock} {ws : List Write}
    (hpending : Pends pg session (pendingAfter ((ledgerOf W.history).pending c) k reply))
    (hcommitted : List.Forall₂ (Stores pg) (committedBy ((ledgerOf W.history).pending c) k reply)
      (ws.filterMap Write.auditRow)) :
    Balanced init (W.settle c k next reply session locks ws) := by
  constructor
  · intro c'
    show Pends pg (Function.update W.session c session c')
      ((ledgerOf (W.history ++ [_])).pending c')
    rw [ledgerOf_concat]
    show Pends pg _ (Function.update (ledgerOf W.history).pending c _ c')
    by_cases hc : c' = c
    · subst hc
      rw [Function.update_self, Function.update_self]
      exact hpending
    · rw [Function.update_of_ne hc, Function.update_of_ne hc]
      exact h.pending c'
  · obtain ⟨rows, haudit, hrows⟩ := h.committed
    refine ⟨rows ++ ws.filterMap Write.auditRow, ?_, ?_⟩
    · show ((store pg).applyAll W.contents ws).audit = _
      rw [audit_applyAll, haudit, List.append_assoc]
    · show List.Forall₂ _ (ledgerOf (W.history ++ [_])).committed _
      rw [ledgerOf_concat]
      exact List.rel_append hrows (List.forall₂_map_left_iff.mpr hcommitted)

section Command

variable {choice : Choice} {κ : Contents} {session : Session Write}
  {pending : Option (List AuditRecord)} {k : Cmd (store pg)}

private theorem pends_of_failure (h : Pends pg session pending) :
    Pends pg (session.afterFailure k) (pendingAfter pending k none) := by
  cases k <;> cases session <;> first | exact h | rfl

private theorem committedBy_of_failure {k : Cmd (store pg)} : committedBy pending k none = [] := by
  cases k <;> rfl

private theorem pends_of_perform {eff : Effect (store pg) k} (h : Pends pg session pending)
    (heff : perform choice κ session k = some eff) :
    Pends pg eff.session (pendingAfter pending k (some eff.reply)) ∧
      List.Forall₂ (Stores pg) (committedBy pending k (some eff.reply))
        (eff.writes.filterMap Write.auditRow) := by
  have hproceed := proceed_of_perform heff
  cases k with
  | connect | release =>
    rw [← Option.some.inj hproceed]
    exact ⟨rfl, .nil⟩
  | begin =>
    cases session <;> simp only [proceed, reduceCtorEq, Option.some.injEq] at hproceed
    rw [← hproceed]
    exact ⟨⟨[], rfl, .nil⟩, .nil⟩
  | rollback =>
    cases session <;> simp only [proceed, reduceCtorEq, Option.some.injEq] at hproceed
    all_goals
      rw [← hproceed]
      exact ⟨rfl, .nil⟩
  | commit =>
    cases session with
    | closed => exact absurd hproceed (by simp [proceed])
    | active ws =>
      obtain ⟨records, rfl, hrecords⟩ := h
      rw [← Option.some.inj hproceed]
      exact ⟨rfl, hrecords⟩
    | idle | aborted =>
      cases h
      rw [← Option.some.inj hproceed]
      exact ⟨rfl, .nil⟩
  | tx s =>
    cases session with
    | active ws =>
      obtain ⟨records, rfl, hrecords⟩ := h
      obtain ⟨⟨r, more⟩, hexec, hmap⟩ := Option.map_eq_some_iff.mp hproceed
      rw [← hmap]
      refine ⟨⟨records ++ s.records, rfl, ?_⟩, .nil⟩
      rw [List.filterMap_append]
      exact List.rel_append hrecords (stores_of_exec hexec)
    | _ => exact absurd hproceed (by simp [proceed])
  | query s =>
    obtain ⟨⟨r, more⟩, hexec, hmap⟩ := Option.map_eq_some_iff.mp hproceed
    rw [← hmap]
    exact ⟨h, stores_of_exec hexec⟩
  | ext x =>
    obtain ⟨r, -, hmap⟩ := Option.map_eq_some_iff.mp hproceed
    rw [← hmap]
    exact ⟨h, .nil⟩

end Command

theorem Balanced.step {init : Contents} {W W' : World (store pg) Client Thrown Unit}
    (h : Balanced init W) {c : Client} {choice : Choice} (hstep : W.step c choice = some W') :
    Balanced init W' := by
  obtain ⟨k, next, -, ⟨-, rfl⟩ | ⟨eff, heff, -, rfl⟩⟩ := World.step_cases hstep
  · apply h.settle (pends_of_failure (h.pending c))
    rw [committedBy_of_failure]
    exact .nil
  · obtain ⟨hpending, hcommitted⟩ := pends_of_perform (h.pending c) heff
    exact h.settle hpending hcommitted

/-- In every run, whatever the programs are, the log holds what was committed. -/
theorem balanced_of_run {procs : Client → Async pg Thrown Unit} {init : Contents}
    {schedule : List (Client × Choice)} {W : World (store pg) Client Thrown Unit}
    (hrun : World.run schedule (.start procs init) = some W) : Balanced init W := by
  apply World.run_induction (motive := Balanced init) hrun
  · exact ⟨fun _ => rfl, [], (List.append_nil _).symm, .nil⟩
  · intro V V' c choice hstep h
    exact h.step hstep

end Ledgers

/-- The rows are appended one after the other. -/
def Extends (pg : Postgres) (sha256 : String → String) : List AuditRow → List AuditRow → Prop
  | _, [] => True
  | rows, row :: rest =>
      (∃ input, Appends pg sha256 rows input row) ∧ Extends pg sha256 (rows ++ [row]) rest

theorem extends_append {rows xs ys : List AuditRow} :
    Extends pg sha256 rows (xs ++ ys) ↔
      Extends pg sha256 rows xs ∧ Extends pg sha256 (rows ++ xs) ys := by
  induction xs generalizing rows with
  | nil => simp [Extends]
  | cons x xs ih => simp [Extends, ih, and_assoc]

theorem Extends.sequence {rows more : List AuditRow} (h : Extends pg sha256 rows more)
    (hrows : Sequence rows) : Sequence (rows ++ more) := by
  induction more generalizing rows with
  | nil =>
    rw [List.append_nil]
    exact hrows
  | cons row rest ih =>
    obtain ⟨⟨input, now, happend⟩, hrest⟩ := h
    obtain ⟨row', heq, hof, hfresh⟩ := appendInTransaction_eq_some happend
    obtain rfl : row = row' := List.head_eq_of_cons_eq (List.append_cancel_left heq)
    have hall := ih hrest (hrows.append hof hfresh)
    rwa [List.append_assoc] at hall

/-- Of all locks only the one of the chain matters. -/
def chainLock (pg : Postgres) : Protection (store pg) where
  Same l κ κ' := l = .chain → κ.audit = κ'.audit
  touches w l := l = .chain ∧ w.isAudit = true
  refl _ _ _ := rfl
  trans h h' hl := (h hl).trans (h' hl)
  apply {w l} κ h hl := by
    cases w with
    | insertAudit row => exact absurd ⟨hl, rfl⟩ h
    | _ => rfl

/-- Whatever is committed extends the log. -/
def appending (pg : Postgres) (sha256 : String → String) (Client : Type) :
    Protocol (store pg) Client Unit where
  Step _ _ κ _ _ ws _ := Extends pg sha256 κ.audit (ws.filterMap Write.auditRow)
  fail := id
  silent _ := true
  failed := trivial
  unrolled := trivial
  passed _ _ := trivial
  served _ _ := trivial

theorem audit_of_chainLock (κ κ' : Contents) (h : (chainLock pg).Same .chain κ κ') :
    κ.audit = κ'.audit := h rfl

theorem allowsAppends_appending : AllowsAppends (appending pg sha256 Client) := ⟨rfl, fun _ _ => rfl⟩

section Safety

variable {c : Client} {κ κ' : Contents} {ws : List Write} {held : List Lock}

/-- The rows of a transaction extend the log, and the chain is locked while there are some. -/
structure Guarded (pg : Postgres) (sha256 : String → String) (ws : List Write) (held : List Lock)
    (κ : Contents) : Prop where
  extends_audit : Extends pg sha256 κ.audit (ws.filterMap Write.auditRow)
  locked : ws.filterMap Write.auditRow ≠ [] → .chain ∈ held

theorem Guarded.rely (h : Guarded pg sha256 ws held κ)
    (hrely : (Local.mk (.active ws) held).Rely (chainLock pg) κ κ') :
    Guarded pg sha256 ws held κ' := by
  refine ⟨?_, h.locked⟩
  by_cases hrows : ws.filterMap Write.auditRow = []
  · rw [hrows]
    trivial
  · have hsame : κ.audit = κ'.audit := hrely .chain (h.locked hrows) rfl
    rw [← hsame]
    exact h.extends_audit

private theorem endsIn_of_guarded {α : Type} {value : α} (h : Guarded pg sha256 ws held κ) :
    EndsIn (ε := Thrown) (chainLock pg) (appending pg sha256 Client) c (fun _ _ => True) (.ok value)
      () ⟨.active ws, held⟩ κ := by
  refine ⟨ws, held, rfl, ?_, ?_, trivial⟩
  · rintro w hw l ⟨rfl, haudit⟩
    apply h.locked
    obtain ⟨row, hrow⟩ := Option.isSome_iff_exists.mp haudit
    exact List.ne_nil_of_mem (List.mem_filterMap.mpr ⟨w, hw, hrow⟩)
  · intro κ' hrely
    exact ⟨(), (h.rely hrely).extends_audit, trivial⟩

/-- A transaction in which the appends are guarded, or one that is lost. -/
def Sound (pg : Postgres) (sha256 : String → String) (σ : Local (store pg)) (κ : Contents) : Prop :=
  (∃ ws held, σ = ⟨.active ws, held⟩ ∧ Guarded pg sha256 ws held κ) ∨ σ = ⟨.aborted, []⟩

theorem safe_work (work : Work) (returned : List AuditRecord) {σ : Local (store pg)}
    (h : Sound pg sha256 σ κ) :
    Safe (chainLock pg) (appending pg sha256 Client) c (fun _ _ σ κ => Sound pg sha256 σ κ)
      (work.run sha256 returned) () σ κ := by
  induction work generalizing returned σ κ with
  | done | fail => exact h
  | append logged input next ih =>
    rw [Work.run, safe_bind, safe_result]
    rcases h with ⟨ws, held, rfl, hguarded⟩ | rfl
    · apply safe_appendInTransaction_of audit_of_chainLock allowsAppends_appending
      · intro κ' record row hrely happends
        apply ih
        refine .inl ⟨_, _, rfl, ?_, fun _ => by simp⟩
        rw [List.filterMap_append, extends_append]
        refine ⟨(hguarded.rely hrely).extends_audit, ⟨input, ?_⟩, trivial⟩
        rwa [audit_applyAll] at happends
      · intro κ'
        exact ih _ _ (.inr rfl)
    · apply safe_appendInTransaction_aborted allowsAppends_appending
      intro κ'
      exact ih _ _ (.inr rfl)
  | statement s hs next ih =>
    rw [Work.run, safe_bind, safe_result]
    rcases h with ⟨ws, held, rfl, hguarded⟩ | rfl
    · apply safe_tx
      · intro κ' choice r more hrely hexec
        refine ⟨(), trivial, ?_⟩
        apply ih
        have hnone : more.filterMap Write.auditRow = [] := by
          have hstores := stores_of_exec hexec
          rw [hs] at hstores
          exact List.forall₂_nil_left_iff.mp hstores
        have hguarded' := hguarded.rely hrely
        refine .inl ⟨_, _, rfl, ?_, ?_⟩
        · rw [List.filterMap_append, hnone, List.append_nil]
          exact hguarded'.extends_audit
        · rw [List.filterMap_append, hnone, List.append_nil]
          exact fun hrows => List.mem_append_left _ (hguarded'.locked hrows)
      · intro κ'
        exact ih _ _ (.inr rfl)
    · apply safe_tx_aborted
      intro κ'
      exact ih _ _ (.inr rfl)

theorem safe_caller (caller : Caller) :
    Safe (chainLock pg) (appending pg sha256 Client) c (fun _ _ _ _ => True) (caller.run sha256) ()
      .closed κ := by
  have hnext : ∀ {α : Type} {p : Async pg Thrown α} {f : Except Thrown α → Async pg Thrown Unit} {κ},
      Safe (chainLock pg) (appending pg sha256 Client) c (fun _ _ σ _ => σ = .closed ∧ True) p ()
        .closed κ →
      (∀ r κ, Safe (chainLock pg) (appending pg sha256 Client) c (fun _ _ _ _ => True) (f r) ()
        .closed κ) →
      Safe (chainLock pg) (appending pg sha256 Client) c (fun _ _ _ _ => True) (p.result >>= f) ()
        .closed κ := by
    intro α p f κ hp hf
    rw [safe_bind, safe_result]
    apply hp.mono
    rintro r φ σ κ' ⟨rfl, -⟩
    exact hf r κ'
  induction caller generalizing κ with
  | stop => trivial
  | call call next ih =>
    refine hnext ?_ fun r κ' => ih _
    cases call with
    | append input =>
      unfold AppendCall.run
      rw [safe_bind]
      have happend : Safe (chainLock pg) (appending pg sha256 Client) c
          (fun r _ σ _ => σ = .closed ∧ True)
          (Runtime.append sha256 input : Async pg Thrown AuditRecord) () .closed κ := by
        apply safe_transaction (R := fun _ _ => True)
        case hfail => trivial
        intro κ₀
        apply safe_appendInTransaction_of audit_of_chainLock allowsAppends_appending
        case hfail =>
          intro _
          trivial
        intro κ₁ record row _ happends
        have hguarded : Guarded pg sha256 ([] ++ [.insertAudit row]) ([] ++ [.chain]) κ₁ :=
          ⟨⟨⟨input, happends⟩, trivial⟩, fun _ => List.mem_singleton_self _⟩
        exact endsIn_of_guarded hguarded
      apply happend.mono
      rintro r φ σ κ' hclosed
      cases r <;> exact hclosed
    | transaction work =>
      unfold AppendCall.run
      apply safe_transaction_of (R := fun _ _ => True)
      case hfail => trivial
      intro κ₀
      apply (safe_work work [] (.inl ⟨[], [], rfl, trivial, fun h => absurd rfl h⟩)).mono
      intro r φ σ κ' hsound
      cases r with
      | error e => exact .inl trivial
      | ok value =>
        rcases hsound with ⟨ws, held, rfl, hguarded⟩ | rfl
        · exact .inl (endsIn_of_guarded hguarded)
        · exact .inr ⟨rfl, fun _ => ⟨(), trivial, trivial⟩, trivial⟩

end Safety

/-- The answered commands of a client. -/
abbrev OwnTrace (pg : Postgres) : Type := List (Prog.Answered (Cmd.Reply (E := store pg)))

/-- No statement of a transaction has failed. -/
def Intact (trace : OwnTrace pg) : Prop := ∀ s, ⟨.tx s, none⟩ ∉ trace

open Classical in
/-- The records that the appends of the committed transactions of a caller have returned, by what the
caller did so far.  `COMMIT` commits nothing after a statement that failed. -/
inductive CommittedReturns (pg : Postgres) (sha256 : String → String) :
    Caller → OwnTrace pg → List AuditRecord → Prop where
  | none {caller trace} (h : ⟨.commit, some ()⟩ ∉ trace) : CommittedReturns pg sha256 caller trace []
  | committing {c next trace records} (h : (c.run sha256).Run (trace ++ [⟨.release, some ()⟩])
      (.ok records)) : CommittedReturns pg sha256 (.call c next) trace (if Intact trace then records else [])
  | returned {c next first rest records more} (h : (c.run sha256).Run first (.ok records))
      (hrest : CommittedReturns pg sha256 (next (some records)) rest more) :
      CommittedReturns pg sha256 (.call c next) (first ++ rest)
        ((if Intact first then records else []) ++ more)
  | thrown {c next first rest e more} (h : (c.run sha256).Run first (.error e))
      (hrest : CommittedReturns pg sha256 (next .none) rest more) :
      CommittedReturns pg sha256 (.call c next) (first ++ rest) more

/-- The entries of the ledger for one client. -/
def ledgerStep (state : Option (List AuditRecord) × List AuditRecord)
    (a : Prog.Answered (Cmd.Reply (E := store pg))) : Option (List AuditRecord) × List AuditRecord :=
  (pendingAfter state.1 a.1 a.2, state.2 ++ committedBy state.1 a.1 a.2)

def inserted (trace : OwnTrace pg) : List AuditRecord :=
  trace.flatMap fun
    | ⟨.tx s, some _⟩ => s.records
    | _ => []

/-- Statements of a transaction, and services. -/
def Inside (k : Cmd (store pg)) : Prop := (∃ s, k = .tx s) ∨ ∃ x, k = .ext x

theorem inserted_append (xs ys : OwnTrace pg) : inserted (xs ++ ys) = inserted xs ++ inserted ys :=
  List.flatMap_append

section Returned

variable {trace : OwnTrace pg} {o : Except Thrown AuditRecord} {input : AuditRecordInput}
  {logged : Bool}

private theorem uses_appendInTransaction :
    (appendInTransaction sha256 logged input : Async pg Thrown AuditRecord).Uses Inside := by
  have hscrubbed : ∀ input, (appendScrubbed sha256 input : Async pg Thrown AuditRecord).Uses
      Inside := by
    intro input
    refine (Prog.uses_perform (.inl ⟨_, rfl⟩)).bind fun _ => ?_
    refine (Prog.uses_perform (.inl ⟨_, rfl⟩)).bind fun _ => ?_
    refine (Prog.uses_perform (.inr ⟨_, rfl⟩)).bind fun _ => ?_
    exact (Prog.uses_perform (.inl ⟨_, rfl⟩)).bind fun _ => trivial
  unfold appendInTransaction
  dsimp only
  split
  · exact (Prog.uses_perform (.inr ⟨_, rfl⟩)).bind fun _ => hscrubbed _
  · exact hscrubbed _

theorem inserted_of_append
    (h : (appendInTransaction sha256 logged input : Async pg Thrown AuditRecord).Run trace o) :
    inserted trace = o.toOption.toList := by
  have hscrubbed : ∀ {input trace}, (appendScrubbed sha256 input : Async pg Thrown AuditRecord).Run
      trace o → inserted trace = o.toOption.toList := by
    intro input trace h
    unfold appendScrubbed tx ext at h
    obtain ⟨_, _, rfl, hselect⟩ | ⟨rfl, rfl⟩ := Prog.run_perform_bind_iff.mp h
    case inr => rfl
    obtain ⟨tail, _, rfl, hclock⟩ | ⟨rfl, rfl⟩ := Prog.run_perform_bind_iff.mp hselect
    case inr => rfl
    obtain ⟨now, _, rfl, hinsert⟩ | ⟨rfl, rfl⟩ := Prog.run_perform_bind_iff.mp hclock
    case inr => rfl
    obtain ⟨_, _, rfl, hreturn⟩ | ⟨rfl, rfl⟩ := Prog.run_perform_bind_iff.mp hinsert
    case inr => rfl
    obtain ⟨rfl, rfl⟩ := Prog.run_ret_iff.mp hreturn
    rfl
  unfold appendInTransaction at h
  dsimp only at h
  split at h
  · unfold log ext at h
    obtain ⟨_, _, rfl, hrest⟩ | ⟨rfl, rfl⟩ := Prog.run_perform_bind_iff.mp h
    · exact (hscrubbed hrest :)
    · rfl
  · exact hscrubbed h

private theorem uses_work (work : Work) (returned : List AuditRecord) :
    (work.run sha256 returned : Async pg Thrown (List AuditRecord)).Uses Inside := by
  induction work generalizing returned with
  | done | fail => trivial
  | append logged input next ih =>
    exact uses_appendInTransaction.result.bind fun _ => ih _ _
  | statement s _ next ih =>
    exact (Prog.uses_perform (.inl ⟨s, rfl⟩)).result.bind fun _ => ih _ _

/-- A transaction that does not throw inserts the records that its appends return. -/
theorem inserted_of_work {work : Work} {returned records : List AuditRecord}
    (h : (work.run sha256 returned : Async pg Thrown (List AuditRecord)).Run trace (.ok records)) :
    records = returned ++ inserted trace := by
  induction work generalizing returned trace with
  | done =>
    obtain ⟨rfl, heq⟩ := Prog.run_ret_iff.mp h
    rw [Except.ok.inj heq]
    exact (List.append_nil _).symm
  | fail =>
    obtain ⟨-, heq⟩ := Prog.run_throw_iff.mp h
    cases heq
  | append logged input next ih =>
    obtain ⟨r, first, rest, hfirst, hrest, rfl⟩ := Prog.run_result_bind_iff.mp h
    rw [ih _ hrest, inserted_append, inserted_of_append hfirst, List.append_assoc]
  | statement s hs next ih =>
    obtain ⟨r, first, rest, hfirst, hrest, rfl⟩ := Prog.run_result_bind_iff.mp h
    have hnone : inserted first = [] := by
      rcases Prog.run_perform_iff.mp hfirst with ⟨_, rfl, -⟩ | ⟨rfl, -⟩
      · simpa [inserted] using hs
      · rfl
    rw [ih _ hrest, inserted_append, hnone, List.nil_append]

open Classical in
private theorem ledger_inside (h : ∀ a ∈ trace, Inside a.1) (pending committed : List AuditRecord) :
    trace.foldl ledgerStep (none, committed) = (none, committed) ∧
      trace.foldl ledgerStep (some pending, committed) =
        (if Intact trace then some (pending ++ inserted trace) else none, committed) := by
  induction trace generalizing pending with
  | nil => simp [Intact, inserted]
  | cons a trace ih =>
    obtain ⟨ha, htrace⟩ := List.forall_mem_cons.mp h
    obtain ⟨k, r⟩ := a
    rcases ha with ⟨s, rfl⟩ | ⟨x, rfl⟩
    · cases r with
      | none =>
        have hlost : ¬Intact (⟨.tx s, none⟩ :: trace : OwnTrace pg) := fun h => h s (by simp)
        simp only [List.foldl_cons, ledgerStep, pendingAfter, committedBy, List.append_nil,
          (ih htrace pending).1, if_neg hlost, and_self]
      | some r =>
        have hintact : Intact (⟨.tx s, some r⟩ :: trace : OwnTrace pg) ↔ Intact trace :=
          forall_congr' fun s' => not_congr
            ⟨fun h => List.mem_of_ne_of_mem (by rintro ⟨⟩) h, List.mem_cons_of_mem _⟩
        have hinserted : inserted (⟨.tx s, some r⟩ :: trace : OwnTrace pg) =
            s.records ++ inserted trace := rfl
        simp only [List.foldl_cons, ledgerStep, pendingAfter, committedBy, List.append_nil,
          Option.map_none, Option.map_some, (ih htrace pending).1, (ih htrace _).2, hintact,
          hinserted, List.append_assoc, and_self]
    · have hintact : Intact (⟨.ext x, r⟩ :: trace : OwnTrace pg) ↔ Intact trace := by
        simp [Intact]
      have hinserted : inserted (⟨.ext x, r⟩ :: trace : OwnTrace pg) = inserted trace := rfl
      have hstep : ∀ p, ledgerStep (p, committed) (⟨.ext x, r⟩ : Prog.Answered _) =
          (p, committed) := by
        intro p
        cases r <;> simp [ledgerStep, pendingAfter, committedBy]
      simp only [List.foldl_cons, hstep, (ih htrace pending).1, (ih htrace pending).2, hintact,
        hinserted, and_self]

private theorem ledger_uncommitted (hcommit : ⟨.commit, some ()⟩ ∉ trace)
    (hquery : ∀ a ∈ trace, ∀ s, a.1 ≠ .query s) (state : Option (List AuditRecord) × List AuditRecord) :
    (trace.foldl ledgerStep state).2 = state.2 := by
  induction trace generalizing state with
  | nil => rfl
  | cons a trace ih =>
    obtain ⟨ha, htrace⟩ := List.forall_mem_cons.mp hquery
    rw [List.foldl_cons, ih (fun h => hcommit (List.mem_cons_of_mem _ h)) htrace]
    have hnone : committedBy state.1 a.1 a.2 = [] := by
      obtain ⟨k, r⟩ := a
      cases k with
      | commit =>
        cases r with
        | none => rfl
        | some r => exact absurd List.mem_cons_self hcommit
      | query s => exact absurd rfl (ha s)
      | _ => rfl
    rw [ledgerStep, hnone, List.append_nil]

section Transactions

variable {α : Type} {fn : Async pg Thrown α} {returned : α → List AuditRecord}

private theorem Inside.ne_query {k : Cmd (store pg)} (h : Inside k) (s : Stmt) : k ≠ .query s := by
  rcases h with ⟨_, rfl⟩ | ⟨_, rfl⟩ <;> rintro ⟨⟩

private theorem Inside.ne_commit {k : Cmd (store pg)} (h : Inside k) : k ≠ .commit := by
  rcases h with ⟨_, rfl⟩ | ⟨_, rfl⟩ <;> rintro ⟨⟩

private theorem uses_transaction_ne_query (hfn : fn.Uses Inside) :
    (transaction fn).Uses fun k : Cmd (store pg) => ∀ s, k ≠ .query s :=
  uses_transaction (by simp) (hfn.mono fun _ h => h.ne_query)

open Classical in
/-- A transaction that inserts what it returns commits it, unless a statement failed; one that throws
commits nothing. -/
private theorem ledger_of_transaction {trace : OwnTrace pg} {o : Except Thrown α}
    (h : (transaction fn).Run trace o) (hfn : fn.Uses Inside)
    (hreturns : ∀ first value, fn.Run first (.ok value) → returned value = inserted first)
    (hrelease : ⟨.release, none⟩ ∉ trace) (acc : List AuditRecord) :
    trace.foldl ledgerStep (none, acc) = (none, acc ++ match o with
      | .ok value => if Intact trace then returned value else []
      | .error _ => []) := by
  obtain ⟨value, first, rfl, hfirst, rfl⟩ | ⟨error, rfl, hcommit, hend⟩ :=
    run_transaction_cases h (hfn.mono fun _ h => h.ne_commit) hrelease
  · have hinside : ∀ a ∈ first, Inside a.1 := hfirst.uses hfn
    have hintact : Intact (⟨.connect, some ()⟩ :: ⟨.begin, some ()⟩ ::
        (first ++ [⟨.commit, some ()⟩, ⟨.release, some ()⟩]) : OwnTrace pg) ↔ Intact first := by
      simp [Intact]
    have hfold := (ledger_inside hinside [] acc).2
    rw [List.nil_append] at hfold
    simp only [hintact, hreturns first value hfirst, List.foldl_cons, List.foldl_append, ledgerStep,
      pendingAfter, committedBy, List.append_nil, hfold, List.foldl_nil]
    split <;> simp
  · refine Prod.ext ?_ ?_
    · obtain rfl | ⟨first, rfl⟩ := hend
      · rfl
      · rw [List.foldl_append]
        rfl
    · rw [ledger_uncommitted hcommit (h.uses (uses_transaction_ne_query hfn)), List.append_nil]

end Transactions

variable {c : AppendCall}

private theorem call_eq_transaction (pg : Postgres) (sha256 : String → String) (c : AppendCall) :
    ∃ (α : Type) (fn : Async pg Thrown α) (returned : α → List AuditRecord), fn.Uses Inside ∧
      (∀ first value, fn.Run first (.ok value) → returned value = inserted first) ∧
      c.run sha256 = transaction fn >>= fun value => return returned value := by
  cases c with
  | append input =>
    refine ⟨_, _, fun record => [record], uses_appendInTransaction, ?_, rfl⟩
    intro first record hrun
    rw [inserted_of_append hrun]
    rfl
  | transaction work =>
    refine ⟨_, _, id, uses_work work [], ?_, (Prog.bind_ret _).symm⟩
    intro first records hrun
    rw [id, inserted_of_work hrun, List.nil_append]

open Classical in
private theorem ledger_of_call {o : Except Thrown (List AuditRecord)} (h : (c.run sha256).Run trace o)
    (hrelease : ⟨.release, none⟩ ∉ trace) (acc : List AuditRecord) :
    trace.foldl ledgerStep (none, acc) = (none, acc ++ match o with
      | .ok records => if Intact trace then records else []
      | .error _ => []) := by
  obtain ⟨α, fn, returned, hfn, hreturns, hrun⟩ := call_eq_transaction pg sha256 c
  rw [hrun] at h
  obtain ⟨value, first, rest, hfirst, hrest, rfl⟩ | ⟨error, hthrown, rfl⟩ := Prog.run_bind_iff.mp h
  · obtain ⟨rfl, rfl⟩ := Prog.run_ret_iff.mp hrest
    rw [List.append_nil] at hrelease ⊢
    exact ledger_of_transaction hfirst hfn hreturns hrelease acc
  · exact ledger_of_transaction hthrown hfn hreturns hrelease acc

private theorem reaches_call_cases {k : Cmd (store pg)}
    {next : Option k.Reply → Async pg Thrown (List AuditRecord)}
    (h : (c.run sha256).Reaches trace (.call k next)) :
    (⟨.commit, some ()⟩ ∉ trace ∧ ∀ a ∈ trace, ∀ s, a.1 ≠ .query s) ∨
      ∃ records, (c.run sha256).Run (trace ++ [⟨.release, some ()⟩]) (.ok records) := by
  obtain ⟨α, fn, returned, hfn, -, hcall⟩ := call_eq_transaction pg sha256 c
  rw [hcall] at h ⊢
  obtain ⟨_, _, hway⟩ | ⟨_, -, heq⟩ | ⟨_, _, _, -, hrest, -⟩ := Prog.Reaches.of_bind h
  · obtain hcommit | ⟨value, -, -, -, hrun⟩ :=
      reaches_transaction_cases hway (hfn.mono fun _ h => h.ne_commit)
    · exact .inl ⟨hcommit, hway.uses (uses_transaction_ne_query hfn)⟩
    · refine .inr ⟨returned value, ?_⟩
      rw [← List.append_nil (trace ++ _)]
      exact hrun.bind .ret
  · cases heq
  · exact absurd hrest Prog.not_reaches_ret

private theorem committedReturns_of_reaches {caller : Caller} {q : Async pg Thrown Unit}
    (h : (caller.run sha256).Reaches trace q) (hrelease : ⟨.release, none⟩ ∉ trace)
    (acc : List AuditRecord) :
    ∃ records, CommittedReturns pg sha256 caller trace records ∧
      (trace.foldl ledgerStep (none, acc)).2 = acc ++ records := by
  induction caller generalizing trace acc with
  | stop =>
    obtain ⟨rfl, -⟩ := Prog.reaches_ret_iff.mp h
    exact ⟨[], .none List.not_mem_nil, (List.append_nil _).symm⟩
  | call c next ih =>
    obtain ⟨_, _, hcall⟩ | ⟨o, first, rest, hfirst, hrest, rfl⟩ := Prog.Reaches.of_result_bind h
    · obtain ⟨hcommit, hquery⟩ | ⟨records, hrun⟩ := reaches_call_cases hcall
      · refine ⟨[], .none hcommit, ?_⟩
        rw [ledger_uncommitted hcommit hquery, List.append_nil]
      · refine ⟨_, .committing hrun, ?_⟩
        have hfold := ledger_of_call hrun (by simpa using hrelease) acc
        rw [List.foldl_append] at hfold
        have hintact : Intact (trace ++ [⟨.release, some ()⟩] : OwnTrace pg) ↔ Intact trace := by
          simp [Intact]
        have hsnd := congrArg Prod.snd hfold
        simp only [List.foldl_cons, List.foldl_nil, ledgerStep, committedBy, List.append_nil] at hsnd
        rw [hsnd]
        by_cases h : Intact trace
        · rw [if_pos (hintact.mpr h), if_pos h]
        · rw [if_neg (mt hintact.mp h), if_neg h]
    · rw [List.mem_append, not_or] at hrelease
      rw [List.foldl_append, ledger_of_call hfirst hrelease.1]
      cases o with
      | ok records =>
        obtain ⟨more, hmore, heq⟩ := ih _ hrest hrelease.2 (acc ++ _)
        exact ⟨_, .returned hfirst hmore, by rw [heq, List.append_assoc]⟩
      | error error =>
        obtain ⟨more, hmore, heq⟩ := ih _ hrest hrelease.2 (acc ++ _)
        exact ⟨_, .thrown hfirst hmore, by rw [heq, List.append_nil]⟩

end Returned

section Runs

variable [DecidableEq Client] {callers : Client → Caller} {init : Contents}

theorem sequence_of_callers {schedule : List (Client × Choice)}
    {W : World (store pg) Client Thrown Unit}
    (hrun : World.run schedule (callersOf pg sha256 callers init) = some W)
    (hinit : Sequence init.audit) : Sequence W.contents.audit := by
  obtain ⟨phases, htrace⟩ : ∃ phases, (appending pg sha256 Client).Trace (fun _ => ()) init
      W.history phases W.contents := exists_trace (fun c => safe_caller (callers c)) hrun
  generalize W.contents = contents at htrace ⊢
  generalize W.history = history at htrace
  induction htrace with
  | nil => exact hinit
  | @snoc history phases contents φ e _ hstep ih =>
    have hextends : Extends pg sha256 contents.audit (e.writes.filterMap Write.auditRow) := hstep
    rw [audit_applyAll]
    exact hextends.sequence ih

theorem prev_hash_of_sequence {rows p s : List AuditRow} {row : AuditRow} (h : Sequence rows)
    (hsplit : rows = p ++ row :: s) :
    row.prev_hash = match p.getLast? with
      | none => GENESIS_HASH
      | some prev => prev.hash := by
  have hchained := h.chained
  rw [hsplit, List.map_append, List.map_cons, HashChain.chained_append, List.getLast?_map] at hchained
  obtain ⟨-, ⟨-, hback⟩, -⟩ := hchained
  cases hlast : p.getLast? with
  | none =>
    rw [hlast] at hback
    exact hback
  | some prev =>
    rw [hlast] at hback
    exact hback

theorem ledgerOf_own (history : History pg Client) (c : Client) :
    (ownTrace history c).foldl ledgerStep (none, []) = ((ledgerOf history).pending c,
      ((ledgerOf history).committed.filter fun entry => entry.1 = c).map (·.2)) := by
  induction history using List.reverseRecOn with
  | nil => rfl
  | append_singleton history e ih =>
    rw [ledgerOf_concat, ownTrace_concat]
    by_cases hc : e.client = c
    · subst hc
      have hmine : ∀ records : List AuditRecord,
          ((records.map fun record => (e.client, record)).filter fun entry => entry.1 = e.client).map
            (·.2) = records := by
        intro records
        rw [List.filter_eq_self.mpr (by simp), List.map_map]
        exact List.map_id records
      rw [if_pos rfl, List.foldl_concat, ih]
      simp [ledgerStep, Ledger.enter, hmine]
    · have hother : ∀ records : List AuditRecord,
          (records.map fun record => (e.client, record)).filter (fun entry => entry.1 = c) = [] := by
        intro records
        simp [List.filter_eq_nil_iff, hc]
      rw [if_neg hc, ih]
      simp [Ledger.enter, Function.update_of_ne (Ne.symm hc), hother]

/-- The committed rows in the order of their numbers: the numbers run from 1 without gaps, every row
is linked to the one before it, and what was added is the records that the appends of the committed
transactions returned, each of them once and in the order in which their caller made them. -/
theorem chain_under_concurrency {schedule : List (Client × Choice)}
    {W : World (store pg) Client Thrown Unit}
    (hrun : World.run schedule (callersOf pg sha256 callers init) = some W)
    (hinit : Sequence init.audit) :
    ((orderBySeq W.contents.audit).map (·.seq) = oneTo W.contents.audit.length) ∧
      (∀ p row s, orderBySeq W.contents.audit = p ++ row :: s →
        row.prev_hash = match p.getLast? with
          | none => GENESIS_HASH
          | some prev => prev.hash) ∧
      ∃ rows, orderBySeq W.contents.audit = init.audit ++ rows ∧
        ∃ committed : List (Client × AuditRecord),
          List.Forall₂ (fun entry row => Stores pg entry.2 row) committed rows ∧
          ∀ c, CommittedReturns pg sha256 (callers c) (ownTrace W.history c)
            ((committed.filter fun entry => entry.1 = c).map (·.2)) := by
  have hsequence := sequence_of_callers hrun hinit
  obtain ⟨rows, haudit, hrows⟩ := (balanced_of_run hrun).committed
  rw [hsequence.orderBySeq_eq]
  refine ⟨hsequence.seqs, ?_, rows, haudit, _, hrows, fun c => ?_⟩
  · intro p row s hsplit
    exact prev_hash_of_sequence hsequence hsplit
  · obtain ⟨hreaches, hrelease⟩ := World.reaches_of_run hrun c
    obtain ⟨records, hreturned, heq⟩ := committedReturns_of_reaches hreaches hrelease []
    rw [ledgerOf_own, List.nil_append] at heq
    subst heq
    exact hreturned

def started : AuditRecordInput where
  event := ofString "app.started"
  actor := ofString "system"
  actorType := .system
  subject := none
  decision := none
  attributes := none

/-- Two callers: one appends in a transaction that it rolls back, the other one on its own. -/
def twoCallers : Bool → Caller
  | true => .call (.transaction (.append false started fun _ => .fail)) fun _ => .stop
  | false => .call (.append started) fun _ => .stop

/-- The one that appends on its own waits for the other one. -/
def interleaved : List (Bool × Choice) :=
  [true, false, true, false, true, true, true, true, true, true, false, false, false, false,
    false].map fun c => (c, untroubled)

theorem chain_under_concurrency_two :
    ∃ W, World.run interleaved (callersOf postgresText id twoCallers noVendor) = some W ∧
      ((orderBySeq W.contents.audit).map (·.seq) = oneTo W.contents.audit.length) ∧
      (∀ p row s, orderBySeq W.contents.audit = p ++ row :: s →
        row.prev_hash = match p.getLast? with
          | none => GENESIS_HASH
          | some prev => prev.hash) ∧
      ∃ rows, orderBySeq W.contents.audit = [] ++ rows ∧
        ∃ committed : List (Bool × AuditRecord),
          List.Forall₂ (fun entry row => Stores postgresText entry.2 row) committed rows ∧
          ∀ c, CommittedReturns postgresText id (twoCallers c) (ownTrace W.history c)
            ((committed.filter fun entry => entry.1 = c).map (·.2)) := by
  have hsome : (World.run interleaved
      (callersOf postgresText id twoCallers noVendor)).isSome = true := by decide +kernel
  obtain ⟨W, hrun⟩ := Option.isSome_iff_exists.mp hsome
  exact ⟨W, hrun, chain_under_concurrency hrun Sequence.empty⟩

end Runs

end OpenRupiv.Runtime
