import OpenRupiv.Runtime.Atomicity
import OpenRupiv.Runtime.Interference

/-!
# Principals that are not human

Identities of agents and of A2A clients have a prefix that is reserved
(`packages/runtime/src/session.ts`).  The session refuses a login with such an identity, and the
engine does not look at it: what keeps a call of such a principal from counting is what would stop
anyone.
-/

namespace OpenRupiv.Runtime

open Js Lib Spec Audit

def RESERVED_IDENTITY_PREFIXES : List String := ["agent:", "a2a:"]

def hasReservedIdentityPrefix (sub : String) : Bool :=
  RESERVED_IDENTITY_PREFIXES.any fun p => (ofString p).isPrefixOf (ofString sub)

variable {pg : Postgres} {host : Host} {sha256 : String → String} {Client : Type}

/-- The policy engine has allowed the call, and the record and its approvals let it through. -/
structure LetsThrough (host : Host) (history : History pg Client) (κ : Contents) (c : Client)
    (i : ExecuteTransitionInput) : Prop where
  allowed : ∀ q ∈ i.questions, ∃ row, Committed history c (.insertAudit row) ∧ i.Allows q row
  checked : ∃ uuid row, pg.uuid i.recordId = some uuid ∧ κ.rows i.table uuid = some row ∧
    i.checkRow host (some row) = .ok () ∧
      (i.transition.approval.isSome → i.approval uuid ∉ κ.approvals)

theorem ExecuteTransitionInput.EffectOf.unapproved {i : ExecuteTransitionInput} {uuid : Uuid}
    {κ : Contents} {ws : List Write} {outcome : TransitionOutcome}
    (h : i.EffectOf pg sha256 uuid κ ws outcome) (happroval : i.transition.approval.isSome) :
    i.approval uuid ∉ κ.approvals := by
  cases h with
  | plain hnone =>
    rw [hnone] at happroval
    exact absurd happroval (by simp)
  | final _ hfresh => exact hfresh
  | pending _ hfresh => exact hfresh

variable [DecidableEq Client] {calls : Client → Call} {init contents : Contents}
  {history : History pg Client} {phases : Client → Phase}

theorem letsThrough_of_effect
    (h : (protocol pg host sha256 calls).Trace (fun _ => .ready) init history phases contents)
    {c : Client} {i : ExecuteTransitionInput} (hcall : calls c = .transition i)
    {k : Cmd (store pg)} {r : Option k.Reply} {ws : List Write} {φ : Phase}
    (hmoves : Moves pg host sha256 (.transition i) (phases c) contents k r ws φ) {w : Write}
    (hw : w ∈ ws) (haudit : w.isAudit = false) :
    k = .commit ∧ r.isSome = true ∧ LetsThrough host history contents c i := by
  have hnot : ∀ {row : AuditRow}, w ∈ [Write.insertAudit row] → False := by
    intro row hmem
    rw [List.mem_singleton.mp hmem] at haudit
    exact absurd haudit (by simp [Write.isAudit, Write.auditRow])
  generalize hφ : phases c = φ₀ at hmoves
  cases hmoves with
  | effect hi huuid hrow hcheck heffect =>
    cases hi
    refine ⟨rfl, rfl, ?_, _, _, huuid, hrow, hcheck, heffect.unapproved⟩
    intro q hq
    apply allowed_of_trace h hcall
    rw [hφ]
    exact hq
  | created hi | updated hi => exact absurd hi (by simp)
  | granted | denied | reported | rejected => exact (hnot hw).elim
  | _ => exact absurd hw List.not_mem_nil

/-- When no commit of a principal that is not human finds the call let through, these principals
leave records in the audit log only. -/
theorem nonhuman_principals_only_audit {schedule : List (Client × Choice)}
    {W : World (store pg) Client Thrown Unit}
    (hrun : World.run schedule (server pg host sha256 calls init) = some W)
    (hstopped : ∀ c i, calls c = .transition i → hasReservedIdentityPrefix i.user.sub = true →
      ∀ p e s, W.history = p ++ e :: s → e.client = c → e.cmd = .commit → e.reply.isSome = true →
        ¬LetsThrough host p ((store pg).applyAll init (p.flatMap (·.writes))) c i) :
    ∀ c i, calls c = .transition i → hasReservedIdentityPrefix i.user.sub = true →
      (∀ a, ¬Committed W.history c (.insertApproval a)) ∧
        ∀ table id values, ¬Committed W.history c (.setColumns table id values) := by
  obtain ⟨phases, htrace⟩ := trace_of_run hrun
  intro c i hcall hreserved
  have haudit : ∀ w, Committed W.history c w → w.isAudit = true := by
    intro w hcommitted
    obtain ⟨e, he, hclient, hw⟩ := hcommitted
    by_contra hother
    obtain ⟨p, s, hhistory⟩ := List.append_of_mem he
    rw [hhistory] at htrace
    obtain ⟨phases', contents', φ, hbefore, hstep, -⟩ := htrace.split
    rw [hclient] at hstep
    have hmoves : Moves pg host sha256 (calls c) (phases' c) contents' e.cmd e.reply e.writes φ := hstep
    rw [hcall] at hmoves
    obtain ⟨hcmd, hreply, hthrough⟩ :=
      letsThrough_of_effect hbefore hcall hmoves hw (Bool.eq_false_iff.mpr hother)
    rw [hbefore.contents_eq] at hthrough
    exact hstopped c i hcall hreserved p e s hhistory hclient hcmd hreply hthrough
  constructor
  · intro a hcommitted
    exact absurd (haudit _ hcommitted) (by simp [Write.isAudit, Write.auditRow])
  · intro table id values hcommitted
    exact absurd (haudit _ hcommitted) (by simp [Write.isAudit, Write.auditRow])

/-- The call is denied before its transaction commits anything but the denial. -/
theorem nonhuman_principals_only_audit_denied :
    ∃ W, World.run (List.replicate 13 ((), { untroubled with decision := some refused }))
        (server postgresText plainHost lengthHash
          (fun _ => .transition (fire riskReview close "agent:bot")) oneVendor) = some W ∧
      W.contents.audit.map (·.decision) = [some .deny] ∧
      (∀ a, ¬Committed W.history () (.insertApproval a)) ∧
        ∀ table id values, ¬Committed W.history () (.setColumns table id values) := by
  have hdenied : (World.run (List.replicate 13 ((), { untroubled with decision := some refused }))
      (server postgresText plainHost lengthHash
        (fun _ => .transition (fire riskReview close "agent:bot")) oneVendor)).map (fun W =>
          (W.contents.audit.map (·.decision), W.history.all fun e =>
            (e.writes.filterMap Write.auditRow).all fun row => row.decision == some .deny)) =
      some ([some .deny], true) := by decide +kernel
  obtain ⟨W, hrun, hW⟩ := Option.map_eq_some_iff.mp hdenied
  obtain ⟨hdecision, hdeny⟩ := Prod.mk.inj hW
  refine ⟨W, hrun, hdecision, nonhuman_principals_only_audit hrun ?_ () _ rfl (by decide)⟩
  intro c i hcall _ p e s hhistory _ _ _ hthrough
  cases hcall
  obtain ⟨row, ⟨e', he', -, hrow⟩, hallows⟩ := hthrough.allowed .fire (by decide)
  have hmem : e' ∈ W.history := hhistory ▸ List.mem_append_left _ he'
  have hrefused := List.all_eq_true.mp (List.all_eq_true.mp hdeny e' hmem) row
    (List.mem_filterMap.mpr ⟨_, hrow, rfl⟩)
  rw [hallows.decision] at hrefused
  exact absurd hrefused (by decide)

/-- A bot changes the state of a vendor. -/
theorem bot_closes :
    hasReservedIdentityPrefix "agent:bot" = true ∧
      pendingVendor.stateIn "vendor" vendorId riskReview = some (some (.str (ofString "open"))) ∧
      ∃ W, World.run (List.replicate 23 ((), untroubled)) (server postgresText plainHost lengthHash
          (fun _ => .transition (fire riskReview close "agent:bot")) pendingVendor) = some W ∧
        W.contents.stateIn "vendor" vendorId riskReview = some (some (.str (ofString "closed"))) := by
  refine ⟨by decide, by decide, ?_⟩
  obtain ⟨W, hrun, hW⟩ := Option.map_eq_some_iff.mp closed_by_bot
  exact ⟨W, hrun, (Prod.mk.inj hW).1⟩

end OpenRupiv.Runtime
