import OpenRupiv.Runtime.Database
import OpenRupiv.Runtime.Db

/-!
# Appending to the audit log

`appendInTransaction` of `packages/audit/src/store.ts`, statement by statement, and the store of
`packages/runtime/src/audit.ts` with its fail-closed appends.
-/

namespace OpenRupiv.Runtime

open Js Lib Audit

/-- An asynchronous function of the runtime. -/
abbrev Async (pg : Postgres) (ε α : Type) : Type := Prog (Cmd.Reply (E := store pg)) ε α

variable {pg : Postgres} {ε : Type} [Fault ε]

/-- A statement on the connection of the transaction. -/
def tx (s : Stmt) : Async pg ε s.Reply := Prog.perform (κ := Cmd (store pg)) (.tx s)

/-- `db.query`. -/
def query (s : Stmt) : Async pg ε s.Reply := Prog.perform (κ := Cmd (store pg)) (.query s)

def ext (x : Ext) : Async pg ε x.Answer := Prog.perform (κ := Cmd (store pg)) (.ext x)

def log (entry : LogEntry) : Async pg ε Unit := ext (.log entry)

/-- The statements of `appendInTransaction`, the attributes being scrubbed. -/
def appendScrubbed (sha256 : String → String) (input : AuditRecordInput) :
    Async pg ε AuditRecord := do
  tx .lockChainTail
  let tail ← tx .selectTail
  let timestamp ← ext .clock
  let record := appendRecord sha256 (tail.map Audit.rowToRecord) input timestamp.text
  tx (.insertAudit record timestamp)
  return record

/-- `appendInTransaction`; `logged` when the scrubbed keys are reported to a logger. -/
def appendInTransaction (sha256 : String → String) (logged : Bool) (input : AuditRecordInput) :
    Async pg ε AuditRecord := do
  let scrubbed := scrubAttributes input.attributes
  if logged ∧ scrubbed.2 ≠ [] then log (.attributesScrubbed input.event scrubbed.2)
  appendScrubbed sha256 { input with attributes := some scrubbed.1 }

/-- `AuditStore.append`: a transaction of its own. -/
def append (sha256 : String → String) (input : AuditRecordInput) : Async pg ε AuditRecord :=
  transaction (appendInTransaction sha256 true input)

def appendFailed (event : Text) : RuntimeError where
  code := .ERR_AUDIT_APPEND_FAILED
  message := ofString "audit append failed for " ++ event ++ ofString "; request fails closed"

def appendOrFail (sha256 : String → String) (input : AuditRecordInput) : Async pg Thrown Unit := do
  let outcome ← (append sha256 input : Async pg Thrown AuditRecord).result
  match outcome with
  | .ok _ => return ()
  | .error _ =>
      log (.appendFailed input)
      .throw (.runtime (appendFailed input.event))

/-- The loop of `appendAllOrFail`: the number of failures. -/
def appendEach (sha256 : String → String) : List AuditRecordInput → Async pg Thrown Nat
  | [] => return 0
  | input :: rest => do
      let outcome ← (appendOrFail sha256 input : Async pg Thrown Unit).result
      let failures ← appendEach sha256 rest
      match outcome with
      | .ok _ => return failures
      | .error _ => return failures + 1

def appendAllFailed (failures inputs : Nat) : RuntimeError where
  code := .ERR_AUDIT_APPEND_FAILED
  message := ofString (toString failures ++ " of " ++ toString inputs ++
    " independent audit event(s) failed to append; request fails closed (see the preceding " ++
    "audit.append_failed log line for each)")

def appendAllOrFail (sha256 : String → String) (inputs : List AuditRecordInput) :
    Async pg Thrown Unit := do
  let failures ← appendEach sha256 inputs
  if failures > 0 then .throw (.runtime (appendAllFailed failures inputs.length))
  else return ()

/-- `row` is what `appendInTransaction` adds to these rows for the input. -/
def Appends (pg : Postgres) (sha256 : String → String) (rows : List AuditRow)
    (input : AuditRecordInput) (row : AuditRow) : Prop :=
  ∃ now, Audit.appendInTransaction pg.columns sha256 rows input now = some (rows ++ [row])

theorem audit_applyAll_congr {κ κ' : Contents} (h : κ.audit = κ'.audit) (ws : List Write) :
    ((store pg).applyAll κ ws).audit = ((store pg).applyAll κ' ws).audit := by
  induction ws generalizing κ κ' with
  | nil => exact h
  | cons w ws ih =>
    apply ih
    cases w <;> simp [Contents.apply, h]

variable {Client Phase : Type} {P : Protocol (store pg) Client Phase} {c : Client} {φ : Phase}
  {κ : Contents} {sha256 : String → String} {input : AuditRecordInput}

theorem safe_stmt {G : Protection (store pg)} {s : Stmt} {ws : List Write} {held locks : List Lock}
    {Q : Except ε s.Reply → Phase → Local (store pg) → Contents → Prop}
    (hlocks : ∀ choice κ', s.locks pg choice κ' = locks)
    (hdone : ∀ κ' choice r more, (Local.mk (.active ws) held).Rely G κ κ' →
      s.exec pg choice ((store pg).applyAll κ' ws) = some (r, more) →
      ∃ φ', P.Step c φ κ' (.tx s) (some r) [] φ' ∧
        Q (.ok r) φ' ⟨.active (ws ++ more), held ++ locks⟩ κ')
    (hfail : ∀ κ', Q (.error fault) (P.fail φ) ⟨.aborted, []⟩ κ') :
    Safe G P c Q (tx s) φ ⟨.active ws, held⟩ κ := by
  apply safe_tx
  · intro κ' choice r more hrely hexec
    obtain ⟨φ', hstep, hQ⟩ := hdone κ' choice r more hrely hexec
    refine ⟨φ', hstep, ?_⟩
    show Q (.ok r) φ' ⟨_, held ++ s.locks pg choice _⟩ κ'
    rwa [hlocks]
  · exact hfail

/-- A protocol that does not mind the services an append uses. -/
structure AllowsAppends (P : Protocol (store pg) Client Phase) : Prop where
  clock : P.silent .clock = true
  log : ∀ event keys, P.silent (.log (.attributesScrubbed event keys)) = true

/-- An append reads the tail under the chain lock, so it adds to the rows that are there when its
transaction commits. -/
theorem safe_appendInTransaction_of {G : Protection (store pg)}
    (hG : ∀ κ κ', G.Same .chain κ κ' → κ.audit = κ'.audit) (hP : AllowsAppends P) {logged : Bool} {ws : List Write}
    {held : List Lock} {Q : Except ε AuditRecord → Phase → Local (store pg) → Contents → Prop}
    (hdone : ∀ κ' record row, (Local.mk (.active ws) held).Rely G κ κ' →
      Appends pg sha256 ((store pg).applyAll κ' ws).audit input row →
      Q (.ok record) φ ⟨.active (ws ++ [.insertAudit row]), held ++ [.chain]⟩ κ')
    (hfail : ∀ κ', Q (.error fault) (P.fail φ) ⟨.aborted, []⟩ κ') :
    Safe G P c Q (appendInTransaction sha256 logged input) φ ⟨.active ws, held⟩ κ := by
  have hscrubbed : ∀ κ₀, (Local.mk (.active ws) held).Rely G κ κ₀ →
      Safe G P c Q (appendScrubbed sha256
        { input with attributes := some (scrubAttributes input.attributes).1 }) φ
        ⟨.active ws, held⟩ κ₀ := by
    intro κ₀ h₀
    unfold appendScrubbed
    rw [safe_bind]
    apply safe_stmt (fun _ _ => rfl)
    case hfail => exact hfail
    intro κ₁ choice₁ r₁ more₁ h₁ hexec₁
    obtain ⟨rfl, rfl⟩ := Prod.mk.inj (Option.some.inj hexec₁)
    refine ⟨φ, P.passed (k := .tx .lockChainTail) () rfl, ?_⟩
    rw [continues_ok, List.append_nil, safe_bind]
    -- from here on the chain lock is held
    apply safe_stmt (fun _ _ => rfl)
    case hfail => exact hfail
    intro κ₂ choice₂ tail more₂ h₂ hexec₂
    obtain ⟨rfl, rfl⟩ := Prod.mk.inj (Option.some.inj hexec₂)
    refine ⟨φ, P.passed (k := .tx .selectTail) _ rfl, ?_⟩
    rw [continues_ok, List.append_nil, List.append_nil, safe_bind]
    apply safe_ext (.inl rfl)
    case hfail =>
      intro _ choice hanswer
      exact absurd hanswer (by simp)
    intro κ₃ choice₃ now h₃ _
    refine ⟨φ, P.served now hP.clock, ?_⟩
    rw [continues_ok]
    dsimp only
    rw [safe_bind]
    apply safe_stmt (fun _ _ => rfl)
    case hfail => exact hfail
    intro κ₄ choice₄ r₄ more₄ h₄ hexec₄
    simp only [Stmt.exec, Option.bind_eq_bind, Option.bind_eq_some_iff, Option.pure_def,
      Option.some.injEq, Prod.mk.injEq] at hexec₄
    obtain ⟨row, hrow, rows', hinsert, -, rfl⟩ := hexec₄
    refine ⟨φ, P.passed (k := .tx (.insertAudit _ now)) r₄ rfl, ?_⟩
    rw [continues_ok, safe_pure, List.append_nil]
    have hchain : ((store pg).applyAll κ₂ ws).audit = ((store pg).applyAll κ₄ ws).audit := by
      apply audit_applyAll_congr
      have h₃' := hG _ _ (h₃ .chain (by simp))
      have h₄' := hG _ _ (h₄ .chain (by simp))
      exact h₃'.trans h₄'
    rw [hchain] at hrow ⊢
    apply hdone
    · intro l hl
      have hl' : l ∈ held ++ [Lock.chain] := List.mem_append_left _ hl
      have h₀₂ := G.trans (h₀ l hl) (G.trans (h₁ l hl) (h₂ l hl'))
      exact G.trans h₀₂ (G.trans (h₃ l hl') (h₄ l hl'))
    · refine ⟨now, ?_⟩
      have hrows : rows' = ((store pg).applyAll κ₄ ws).audit ++ [row] := by
        unfold insertRow at hinsert
        split at hinsert
        · exact absurd hinsert (by simp)
        · exact (Option.some.inj hinsert).symm
      simp only [Audit.appendInTransaction, Option.bind_eq_bind, Option.bind_eq_some_iff]
      exact ⟨row, hrow, hrows ▸ hinsert⟩
  unfold appendInTransaction
  dsimp only
  split
  · rw [safe_bind]
    apply safe_ext
    · exact .inl rfl
    · intro κ' choice r hrely _
      exact ⟨φ, P.served r (hP.log _ _), hscrubbed κ' hrely⟩
    · intro κ' choice hanswer
      exact absurd hanswer (by simp)
  · exact hscrubbed κ fun l _ => G.refl l κ

theorem safe_appendInTransaction (hP : AllowsAppends P) {logged : Bool} {ws : List Write}
    {held : List Lock} {Q : Except ε AuditRecord → Phase → Local (store pg) → Contents → Prop}
    (hdone : ∀ κ' record row, (Local.mk (.active ws) held).Rely (protection pg) κ κ' →
      Appends pg sha256 ((store pg).applyAll κ' ws).audit input row →
      Q (.ok record) φ ⟨.active (ws ++ [.insertAudit row]), held ++ [.chain]⟩ κ')
    (hfail : ∀ κ', Q (.error fault) (P.fail φ) ⟨.aborted, []⟩ κ') :
    Safe (protection pg) P c Q (appendInTransaction sha256 logged input) φ ⟨.active ws, held⟩ κ :=
  safe_appendInTransaction_of (fun _ _ h => h) hP hdone hfail

theorem safe_appendInTransaction_aborted {G : Protection (store pg)} (hP : AllowsAppends P)
    {logged : Bool}
    {Q : Except ε AuditRecord → Phase → Local (store pg) → Contents → Prop}
    (hfail : ∀ κ', Q (.error fault) (P.fail φ) ⟨.aborted, []⟩ κ') :
    Safe G P c Q (appendInTransaction sha256 logged input) φ ⟨.aborted, []⟩ κ := by
  have hscrubbed : ∀ κ₀, Safe G P c Q (appendScrubbed sha256
      { input with attributes := some (scrubAttributes input.attributes).1 }) φ ⟨.aborted, []⟩ κ₀ := by
    intro κ₀
    unfold appendScrubbed
    rw [safe_bind]
    apply safe_tx_aborted
    intro κ'
    exact hfail κ'
  unfold appendInTransaction
  dsimp only
  split
  · rw [safe_bind]
    apply safe_ext
    · exact .inr rfl
    · intro κ' choice r hrely _
      exact ⟨φ, P.served r (hP.log _ _), hscrubbed κ'⟩
    · intro κ' choice hanswer
      exact absurd hanswer (by simp)
  · exact hscrubbed κ

theorem safe_append (hP : AllowsAppends P) {R : Except ε AuditRecord → Phase → Prop}
    (hcommit : ∀ κ' record row, Appends pg sha256 κ'.audit input row →
      ∃ φ', P.Step c φ κ' .commit (some ()) [.insertAudit row] φ' ∧ R (.ok record) φ')
    (hfail : R (.error fault) (P.fail φ)) :
    Safe (protection pg) P c (fun r φ σ _ => σ = .closed ∧ R r φ) (append sha256 input) φ .closed
      κ := by
  apply safe_transaction
  case hfail => exact hfail
  intro κ₀
  apply safe_appendInTransaction hP
  case hfail =>
    intro _
    exact hfail
  intro κ₁ record row _ happends
  refine ⟨_, _, rfl, ?_, ?_, hfail⟩
  · intro w hw l hl
    rw [List.nil_append, List.mem_singleton] at hw
    subst hw
    cases l with
    | row table id => exact False.elim hl
    | chain => simp
  · intro κ₂ hrely
    have hchain : κ₁.audit = κ₂.audit := hrely .chain (by simp)
    apply hcommit
    rw [← hchain]
    exact happends

theorem safe_appendOrFail (hP : AllowsAppends P) {R : Except Thrown Unit → Phase → Prop}
    (hcommit : ∀ κ' row, Appends pg sha256 κ'.audit input row →
      ∃ φ', P.Step c φ κ' .commit (some ()) [.insertAudit row] φ' ∧ R (.ok ()) φ')
    (hlog : ∀ κ', P.Step c (P.fail φ) κ' (.ext (.log (.appendFailed input))) (some ()) [] (P.fail φ))
    (hfail : R (.error (.runtime (appendFailed input.event))) (P.fail φ)) :
    Safe (protection pg) P c (fun r φ σ _ => σ = .closed ∧ R r φ) (appendOrFail sha256 input) φ
      .closed κ := by
  unfold appendOrFail
  rw [safe_bind, safe_result]
  have happend := @safe_append pg Thrown _ Client Phase P c φ κ sha256 input hP
    (fun r φ' => match r with
      | .ok _ => R (.ok ()) φ'
      | .error _ => φ' = P.fail φ) (fun κ' _ row h => hcommit κ' row h) rfl
  apply happend.mono
  rintro r φ' σ κ' ⟨rfl, hr⟩
  cases r with
  | ok record => exact ⟨rfl, hr⟩
  | error e =>
    subst hr
    rw [continues_ok]
    dsimp only
    rw [safe_bind]
    apply safe_ext (.inr rfl)
    case hfail =>
      intro _ choice hanswer
      exact absurd hanswer (by simp)
    intro κ'' _ _ _ _
    exact ⟨P.fail φ, hlog κ'', rfl, hfail⟩

@[simp] theorem safe_appendAllOrFail_nil
    {Q : Except Thrown Unit → Phase → Local (store pg) → Contents → Prop} {σ : Local (store pg)} :
    Safe (protection pg) P c Q (appendAllOrFail sha256 []) φ σ κ ↔ Q (.ok ()) φ σ κ := Iff.rfl

theorem safe_appendAllOrFail_singleton (hP : AllowsAppends P) {R : Except Thrown Unit → Phase → Prop}
    (hcommit : ∀ κ' row, Appends pg sha256 κ'.audit input row →
      ∃ φ', P.Step c φ κ' .commit (some ()) [.insertAudit row] φ' ∧ R (.ok ()) φ')
    (hlog : ∀ κ', P.Step c (P.fail φ) κ' (.ext (.log (.appendFailed input))) (some ()) [] (P.fail φ))
    (hfail : R (.error (.runtime (appendAllFailed 1 1))) (P.fail φ)) :
    Safe (protection pg) P c (fun r φ σ _ => σ = .closed ∧ R r φ) (appendAllOrFail sha256 [input]) φ
      .closed κ := by
  unfold appendAllOrFail appendEach
  rw [safe_bind, safe_bind, safe_result]
  have happend := @safe_appendOrFail pg Client Phase P c φ κ sha256 input hP
    (fun r φ' => match r with
      | .ok _ => R (.ok ()) φ'
      | .error _ => φ' = P.fail φ) hcommit hlog rfl
  apply happend.mono
  rintro r φ' σ κ' ⟨rfl, hr⟩
  cases r with
  | ok _ => exact ⟨rfl, hr⟩
  | error e =>
    subst hr
    exact ⟨rfl, hfail⟩

end OpenRupiv.Runtime
