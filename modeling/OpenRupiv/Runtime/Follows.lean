import OpenRupiv.Runtime.Protocol

/-!
# The calls follow the protocol

Each function of the handlers is safe for the protocol of its call.  Inside the transaction of a
transition the row lock keeps the record and its approvals as they were read, so that what was
checked still holds when the writes become visible.
-/

namespace OpenRupiv.Runtime

open Js Lib Spec Audit

variable {pg : Postgres} {host : Host} {sha256 : String → String} {Client : Type}
  {calls : Client → Call} {c : Client} {φ : Phase} {σ : Local (store pg)} {κ : Contents}

section Rules

variable {ε α β : Type} {P : Protocol (store pg) Client Phase}
  {Q : Except ε α → Phase → Local (store pg) → Contents → Prop}

theorem safe_check_bind [Raises ε] {x : Except RuntimeError β} {f : β → Async pg ε α}
    (herror : ∀ error, x = .error error → Q (.error (Raises.raise error)) φ σ κ)
    (hok : ∀ b, x = .ok b → Safe (protection pg) P c Q (f b) φ σ κ) :
    Safe (protection pg) P c Q (check x >>= f) φ σ κ := by
  rw [safe_bind, check, safe_ofExcept]
  cases hx : x with
  | error error => exact herror error hx
  | ok b => exact hok b hx

end Rules

theorem allowsAppends : AllowsAppends (protocol pg host sha256 calls) := ⟨rfl, fun _ _ => rfl⟩

private theorem logs_failure {input : AuditRecordInput} (hφ : φ.fail = .faulted) :
    (protocol pg host sha256 calls).Step c ((protocol pg host sha256 calls).fail φ) κ
      (.ext (.log (.appendFailed input))) (some ()) [] ((protocol pg host sha256 calls).fail φ) :=
  Moves.log fun _ _ => hφ

/-- What a value and an error are to satisfy in the phase that they are reached in. -/
def OneOf {ε α : Type} (ok : α → Phase → Prop) (error : ε → Phase → Prop) :
    Except ε α → Phase → Prop
  | .ok a, φ => ok a φ
  | .error e, φ => error e φ

section Transition

variable {i : ExecuteTransitionInput} {row : Row} {uuid : Uuid}

theorem safe_decide (hcall : calls c = .transition i) {granted : List Question} {q : Question}
    (hfrom : i.requireFrom row = .ok ())
    (hguard : q = .approve → checkGuardPredicates host i.transition i.model row = .ok ())
    (hnext : granted ++ [q] <+: i.questions) {R : Except Thrown PolicyDecision → Phase → Prop}
    (hallow : ∀ decision, decision.allow = true →
      R (.ok decision) (.looked (some row) (granted ++ [q])))
    (hdeny : ∀ decision, decision.allow = false → R (.ok decision) (.denied row granted q decision))
    (hfail : ∀ error, Failure error → R (.error error) .faulted) :
    Safe (protection pg) (protocol pg host sha256 calls) c (fun r φ σ _ => σ = .closed ∧ R r φ)
      (decide sha256 i q) (.looked (some row) granted) .closed κ := by
  unfold decide
  rw [safe_bind]
  apply safe_ext (.inr rfl)
  case hfail =>
    intro _ _ _
    exact ⟨rfl, hfail _ .fault⟩
  intro κ₁ _ decision _ _
  refine ⟨.answered row granted q decision, Moves.asked hcall hfrom hguard hnext, ?_⟩
  rw [continues_ok, safe_bind]
  apply safe_ext (.inr rfl)
  case hfail =>
    intro _ _ hanswer
    exact absurd hanswer (by simp)
  intro κ₂ _ _ _ _
  refine ⟨_, Moves.log (by simp), ?_⟩
  rw [continues_ok, safe_bind]
  apply Safe.mono
  · apply safe_appendOrFail (R := OneOf (fun _ => R (.ok decision)) fun error => R (.error error))
      allowsAppends
    · intro κ' audit happends
      cases hallowed : decision.allow with
      | true => exact ⟨_, Moves.granted hcall hallowed happends, hallow decision hallowed⟩
      | false => exact ⟨_, Moves.denied hcall hallowed happends, hdeny decision hallowed⟩
    · intro κ'
      exact logs_failure rfl
    · exact hfail _ .append
  · rintro r φ' σ κ' ⟨rfl, hr⟩
    cases r with
    | ok _ => exact ⟨rfl, hr⟩
    | error error => exact ⟨rfl, hr⟩

/-- What a transition ends its transaction with: an effect, a duplicate that has still to be
recorded, or an error that the protocol allows. -/
def Ends (host : Host) (i : ExecuteTransitionInput) : Except Raised TransitionOutcome → Phase → Prop
  | .ok outcome, φ => φ = .done (.outcome outcome)
  | .error raised, φ =>
      (φ = .duplicate ∧ raised = ⟨.runtime i.duplicateApprover, [i.duplicateRecord]⟩) ∨
        (MayReturn host (.transition i) φ (.error raised.error) ∧ raised.independentEvents = [])

private theorem ends_fault : Ends host i (.error fault) .faulted :=
  .inr ⟨.faulted .fault, rfl⟩

theorem approvers_congr {κ κ' : Contents} {table : String} {id : Uuid}
    (h : SameRecord table id κ κ') (transition : String) :
    κ.approvers table id transition = κ'.approvers table id transition := by
  have hsplit : ∀ κ : Contents, κ.approvals.filter (fun a => a.about table id &&
      a.transition = transition) =
      (κ.approvals.filter (·.about table id)).filter fun a => a.transition = transition := by
    intro κ
    rw [List.filter_filter]
    exact List.filter_congr fun a _ => Bool.and_comm _ _
  rw [Contents.approvers, Contents.approvers, hsplit, hsplit, h.2]

theorem mem_approvals_congr {κ κ' : Contents} {a : Approval}
    (h : SameRecord a.entityTable a.recordId κ κ') : a ∈ κ.approvals ↔ a ∈ κ'.approvals := by
  have hmem : ∀ κ : Contents,
      a ∈ κ.approvals ↔ a ∈ κ.approvals.filter (·.about a.entityTable a.recordId) := by
    intro κ
    simp [Approval.about]
  rw [hmem κ, hmem κ', h.2]

/-- A transaction that has written nothing but approvals so far. -/
def OnlyApprovals (ws : List Write) : Prop := ∀ w ∈ ws, ∃ a, w = .insertApproval a

theorem OnlyApprovals.view {ws : List Write} (h : OnlyApprovals ws) (κ : Contents) :
    ((store pg).applyAll κ ws).rows = κ.rows ∧ ((store pg).applyAll κ ws).audit = κ.audit := by
  induction ws generalizing κ with
  | nil => exact ⟨rfl, rfl⟩
  | cons w ws ih =>
    obtain ⟨a, rfl⟩ := h w List.mem_cons_self
    exact ih (fun w hw => h w (List.mem_cons_of_mem _ hw)) _

theorem OnlyApprovals.same {ws : List Write} (h : OnlyApprovals ws) {κ κ' : Contents}
    {table : String} {id : Uuid} (hsame : SameRecord table id κ κ') :
    SameRecord table id ((store pg).applyAll κ ws) ((store pg).applyAll κ' ws) := by
  induction ws generalizing κ κ' with
  | nil => exact hsame
  | cons w ws ih =>
    obtain ⟨a, rfl⟩ := h w List.mem_cons_self
    apply ih fun w hw => h w (List.mem_cons_of_mem _ hw)
    exact ⟨hsame.1, by simp [Contents.apply, hsame.2]⟩

theorem safe_setState {ws : List Write} {held : List Lock} (hws : OnlyApprovals ws)
    (huuid : pg.uuid i.recordId = some uuid) (hlock : .row i.table uuid ∈ held)
    (hrow : κ.rows i.table uuid = some row) {quoted : String} (htable : quoteIdent i.table = .ok quoted)
    {Q : Except Raised Unit → Phase → Local (store pg) → Contents → Prop}
    (hcolumn : ∀ error, quoteIdent i.stateColumn = .error error →
      Q (.error (Raises.raise error)) φ ⟨.active ws, held⟩ κ)
    (hdone : ∀ κ' now more, SameRecord i.table uuid κ κ' →
      Q (.ok ()) φ ⟨.active (ws ++ i.stateWrites uuid now
        (((store pg).applyAll κ' ws).approvals.filter (·.about i.table uuid))), held ++ more⟩ κ')
    (hfail : ∀ κ', Q (.error fault) ((protocol pg host sha256 calls).fail φ) ⟨.aborted, []⟩ κ') :
    Safe (protection pg) (protocol pg host sha256 calls) c Q (setState i) φ ⟨.active ws, held⟩ κ := by
  unfold setState
  apply safe_check_bind
  · intro error herror
    rw [htable] at herror
    exact absurd herror (by simp)
  intro _ _
  apply safe_check_bind hcolumn
  intro _ _
  rw [safe_bind]
  apply safe_tx
  case hfail => exact hfail
  intro κ₁ choice₁ rowCount more₁ h₁ hexec₁
  have hsame₁ : SameRecord i.table uuid κ κ₁ := h₁ (.row i.table uuid) hlock
  have hrow₁ : ((store pg).applyAll κ₁ ws).rows i.table uuid = some row := by
    rw [(hws.view κ₁).1, ← hsame₁.1, hrow]
  simp only [Stmt.exec, huuid, Option.bind_eq_bind, Option.bind_some, hrow₁, Option.pure_def,
    Option.some.injEq, Prod.mk.injEq] at hexec₁
  obtain ⟨rfl, rfl⟩ := hexec₁
  refine ⟨φ, Moves.quiet (k := .tx (.updateState _ _ _ _)) _ rfl, ?_⟩
  rw [continues_ok, if_neg (by simp)]
  apply safe_stmt (fun _ _ => rfl)
  case hfail => exact hfail
  intro κ₂ choice₂ _ more₂ h₂ hexec₂
  simp only [Stmt.exec, huuid, Option.bind_eq_bind, Option.bind_some, Option.pure_def,
    Option.some.injEq, Prod.mk.injEq, true_and] at hexec₂
  subst hexec₂
  refine ⟨φ, Moves.quiet (k := .tx (.deleteApprovals _ _)) _ rfl, ?_⟩
  have hsame₂ : SameRecord i.table uuid κ₁ κ₂ :=
    h₂ (.row i.table uuid) (List.mem_append_left _ hlock)
  have hview : ((store pg).applyAll κ₂ (ws ++ [.setColumns i.table uuid
      [(i.stateColumn, .str (ofString i.transition.to)), ("updated_at", .date choice₁.now)]])).approvals =
      ((store pg).applyAll κ₂ ws).approvals := by
    rw [Engine.applyAll_append]
    rfl
  have hdone' := hdone κ₂ choice₁.now ((store pg).locks choice₁ ((store pg).applyAll κ₁ ws)
    (.updateState i.table i.stateColumn i.transition.to i.recordId))
    ((protection pg).trans (l := .row i.table uuid) hsame₁ hsame₂)
  rw [hview, List.append_assoc, List.append_nil]
  exact hdone'

theorem about_iff {table : String} {id : Uuid} {a : Approval} :
    a.about table id = true ↔ a.entityTable = table ∧ a.recordId = id := by
  simp [Approval.about]

theorem stateWrites_touches {now : Int} {approvals : List Approval} {w : Write} {l : Lock}
    (hw : w ∈ i.stateWrites uuid now (approvals.filter (·.about i.table uuid)))
    (htouch : w.touches l) : l = .row i.table uuid := by
  rw [ExecuteTransitionInput.stateWrites, List.mem_cons, List.mem_singleton] at hw
  cases l with
  | chain => rcases hw with rfl | rfl <;> exact False.elim htouch
  | row table id =>
    rcases hw with rfl | rfl
    · rw [htouch.1, htouch.2]
    · obtain ⟨a, ha, habout⟩ := htouch
      obtain ⟨htable, hid⟩ := about_iff.mp habout
      obtain ⟨htable', hid'⟩ := about_iff.mp (List.mem_filter.mp ha).2
      rw [← htable, ← hid, htable', hid']

theorem safe_applyTransition (hcall : calls c = .transition i) {ws : List Write} {held : List Lock}
    (hws : OnlyApprovals ws) (huuid : pg.uuid i.recordId = some uuid)
    (hlock : .row i.table uuid ∈ held) (htouch : ∀ w ∈ ws, ∀ l, w.touches l → l ∈ held)
    (hrow : κ.rows i.table uuid = some row) (hcheck : i.checkRow host (some row) = .ok ())
    {quoted : String} (htable : quoteIdent i.table = .ok quoted) {approvals : Option (Nat × Nat)}
    (heffect : ∀ κ' now audit, SameRecord i.table uuid κ κ' →
      Appends pg sha256 κ'.audit (i.transitionRecord approvals) audit →
      i.EffectOf pg sha256 uuid κ' (ws ++ i.stateWrites uuid now
        (((store pg).applyAll κ' ws).approvals.filter (·.about i.table uuid)) ++ [.insertAudit audit])
        (.transitioned i.transition.to)) :
    Safe (protection pg) (protocol pg host sha256 calls) c
      (EndsIn (protection pg) (protocol pg host sha256 calls) c (Ends host i))
      (applyTransition sha256 i approvals) (.locked (some row)) ⟨.active ws, held⟩ κ := by
  unfold applyTransition
  rw [safe_bind]
  apply safe_setState hws huuid hlock hrow htable
  case hcolumn =>
    intro error herror
    exact .inr ⟨.column rfl hcheck herror, rfl⟩
  case hfail =>
    intro _
    exact ends_fault
  intro κ₁ now more hsame₁
  rw [continues_ok, safe_bind]
  apply safe_appendInTransaction allowsAppends
  case hfail =>
    intro _
    exact ends_fault
  intro κ₂ record audit h₂ happends
  have hsame₂ : SameRecord i.table uuid κ₁ κ₂ :=
    h₂ (.row i.table uuid) (List.mem_append_left _ hlock)
  rw [continues_ok, safe_bind]
  apply safe_ext (.inl rfl)
  case hfail =>
    intro _ _ hanswer
    exact absurd hanswer (by simp)
  intro κ₃ _ _ h₃ _
  refine ⟨_, Moves.log (by simp), ?_⟩
  rw [continues_ok, safe_pure]
  refine ⟨_, _, rfl, ?_, ?_, ends_fault⟩
  · intro w hw l htouched
    rw [List.mem_append, List.mem_append, List.mem_singleton] at hw
    rcases hw with (hw | hw) | rfl
    · have hheld := htouch w hw l htouched
      simp [hheld]
    · have hl := stateWrites_touches hw htouched
      simp [hl, hlock]
    · cases l with
      | row table id => exact False.elim htouched
      | chain => simp
  · intro κ₄ h₄
    have hrecord : Lock.row i.table uuid ∈ held ++ more ++ [Lock.chain] := by simp [hlock]
    have hsame₃ : SameRecord i.table uuid κ₂ κ₃ := h₃ _ hrecord
    have hsame₄ : SameRecord i.table uuid κ₃ κ₄ := h₄ _ hrecord
    have hsame : SameRecord i.table uuid κ₁ κ₄ :=
      (protection pg).trans (l := .row i.table uuid) hsame₂
        ((protection pg).trans (l := .row i.table uuid) hsame₃ hsame₄)
    have hchain₃ : κ₂.audit = κ₃.audit := h₃ .chain (by simp)
    have hchain₄ : κ₃.audit = κ₄.audit := h₄ .chain (by simp)
    have hview : ((store pg).applyAll κ₂ (ws ++ i.stateWrites uuid now
        (((store pg).applyAll κ₁ ws).approvals.filter (·.about i.table uuid)))).audit = κ₄.audit := by
      rw [Engine.applyAll_append, ← hchain₄, ← hchain₃]
      exact (hws.view κ₂).2
    rw [hview] at happends
    have hmove := heffect κ₄ now audit
      ((protection pg).trans (l := .row i.table uuid) hsame₁ hsame) happends
    rw [← (hws.same hsame).2] at hmove
    have hrow₄ : κ₄.rows i.table uuid = some row := by
      rw [← hsame.1, ← hsame₁.1, hrow]
    exact ⟨_, Moves.effect hcall huuid hrow₄ hcheck hmove, rfl⟩

private theorem exec_insertApproval (huuid : pg.uuid i.recordId = some uuid) (choice : Choice) :
    Stmt.exec pg choice κ (.insertApproval i.table i.recordId i.transition.name i.user.sub) =
      if i.approval uuid ∈ κ.approvals then some (false, [])
      else some (true, [.insertApproval (i.approval uuid)]) := by
  simp only [Stmt.exec, huuid, Option.bind_eq_bind, Option.bind_some]
  rfl

private theorem approval_congr (pg : Postgres) {κ κ' : Contents} (h : SameRecord i.table uuid κ κ')
    (hnew : i.approval uuid ∉ κ.approvals) {n : Nat}
    (hcount : ((κ.apply (.insertApproval (i.approval uuid))).approvers i.table uuid
      i.transition.name).length = n) :
    i.approval uuid ∉ κ'.approvals ∧
      ((κ'.apply (.insertApproval (i.approval uuid))).approvers i.table uuid
        i.transition.name).length = n := by
  constructor
  · rwa [← mem_approvals_congr h]
  · have honly : OnlyApprovals [.insertApproval (i.approval uuid)] := by simp [OnlyApprovals]
    have hsame : SameRecord i.table uuid ((store pg).applyAll κ _) ((store pg).applyAll κ' _) :=
      honly.same h
    rw [← hcount]
    exact congrArg List.length (approvers_congr hsame _).symm

theorem safe_approveTransition (hcall : calls c = .transition i) {rule : ApprovalRule}
    (hrule : i.transition.approval = some rule) {held : List Lock}
    (huuid : pg.uuid i.recordId = some uuid) (hlock : .row i.table uuid ∈ held)
    (hrow : κ.rows i.table uuid = some row) (hcheck : i.checkRow host (some row) = .ok ())
    {quoted : String} (htable : quoteIdent i.table = .ok quoted) :
    Safe (protection pg) (protocol pg host sha256 calls) c
      (EndsIn (protection pg) (protocol pg host sha256 calls) c (Ends host i))
      (approveTransition sha256 i rule) (.locked (some row)) ⟨.active [], held⟩ κ := by
  unfold approveTransition
  rw [safe_bind]
  apply safe_stmt (fun _ _ => rfl)
  case hfail =>
    intro _
    exact ends_fault
  intro κ₁ choice₁ inserted more₁ h₁ hexec₁
  have hsame₁ : SameRecord i.table uuid κ κ₁ := h₁ (.row i.table uuid) hlock
  have hrow₁ : κ₁.rows i.table uuid = some row := by rw [← hsame₁.1, hrow]
  rw [exec_insertApproval huuid, Engine.applyAll_nil] at hexec₁
  by_cases hmem : i.approval uuid ∈ κ₁.approvals
  · -- the user has approved before
    rw [if_pos hmem] at hexec₁
    obtain ⟨rfl, rfl⟩ := Prod.mk.inj (Option.some.inj hexec₁)
    refine ⟨.duplicate, Moves.duplicate hcall huuid hrow₁ hcheck (by simp [hrule]) hmem, ?_⟩
    rw [continues_ok, if_pos rfl, safe_bind]
    apply safe_ext (.inl rfl)
    case hfail =>
      intro _ _ hanswer
      exact absurd hanswer (by simp)
    intro κ₂ _ _ _ _
    exact ⟨_, Moves.log (by simp), .inl ⟨rfl, rfl⟩⟩
  rw [if_neg hmem] at hexec₁
  obtain ⟨rfl, rfl⟩ := Prod.mk.inj (Option.some.inj hexec₁)
  refine ⟨_, Moves.quiet (k := .tx (.insertApproval _ _ _ _)) _ rfl, ?_⟩
  rw [continues_ok, if_neg (by simp), List.nil_append, List.append_nil, safe_bind]
  apply safe_stmt (fun _ _ => rfl)
  case hfail =>
    intro _
    exact ends_fault
  intro κ₂ choice₂ n more₂ h₂ hexec₂
  have hsame₂ : SameRecord i.table uuid κ₁ κ₂ := h₂ (.row i.table uuid) hlock
  have hrow₂ : κ₂.rows i.table uuid = some row := by rw [← hsame₂.1, hrow₁]
  have hnew₂ : i.approval uuid ∉ κ₂.approvals := by rwa [← mem_approvals_congr hsame₂]
  simp only [Stmt.exec, huuid, Option.bind_eq_bind, Option.bind_some, Option.pure_def,
    Option.some.injEq, Prod.mk.injEq] at hexec₂
  obtain ⟨hcount, rfl⟩ := hexec₂
  refine ⟨_, Moves.quiet (k := .tx (.countApprovals _ _ _)) _ rfl, ?_⟩
  rw [continues_ok, List.append_nil, List.append_nil]
  have htouch : ∀ l, (Write.insertApproval (i.approval uuid)).touches l → l = .row i.table uuid := by
    intro l htouched
    cases l with
    | chain => exact False.elim htouched
    | row table id =>
      obtain ⟨rfl, rfl⟩ := about_iff.mp htouched
      rfl
  split
  case isTrue henough =>
    apply safe_applyTransition hcall (by simp [OnlyApprovals, ExecuteTransitionInput.approval]) huuid
      hlock ?_ hrow₂ hcheck htable
    · intro κ' now audit hsame happends
      obtain ⟨hnew, hn⟩ := approval_congr pg hsame hnew₂ hcount
      exact .final hrule hnew hn henough happends
    · intro w hw l htouched
      rw [List.mem_singleton] at hw
      subst hw
      rw [htouch l htouched]
      exact hlock
  case isFalse hfew =>
    rw [safe_bind]
    apply safe_appendInTransaction allowsAppends
    case hfail =>
      intro _
      exact ends_fault
    intro κ₃ record audit h₃ happends
    have hsame₃ : SameRecord i.table uuid κ₂ κ₃ := h₃ (.row i.table uuid) hlock
    rw [continues_ok, safe_bind]
    apply safe_ext (.inl rfl)
    case hfail =>
      intro _ _ hanswer
      exact absurd hanswer (by simp)
    intro κ₄ _ _ h₄ _
    refine ⟨_, Moves.log (by simp), ?_⟩
    rw [continues_ok, safe_pure]
    refine ⟨_, _, rfl, ?_, ?_, ends_fault⟩
    · intro w hw l htouched
      rw [List.mem_append, List.mem_singleton, List.mem_singleton] at hw
      rcases hw with rfl | rfl
      · rw [htouch l htouched]
        exact List.mem_append_left _ hlock
      · cases l with
        | row table id => exact False.elim htouched
        | chain => simp
    · intro κ₅ h₅
      have hrecord : Lock.row i.table uuid ∈ held ++ [Lock.chain] := by simp [hlock]
      have hsame₄ : SameRecord i.table uuid κ₃ κ₄ := h₄ _ hrecord
      have hsame₅ : SameRecord i.table uuid κ₄ κ₅ := h₅ _ hrecord
      have hsame : SameRecord i.table uuid κ₂ κ₅ :=
        (protection pg).trans (l := .row i.table uuid) hsame₃
          ((protection pg).trans (l := .row i.table uuid) hsame₄ hsame₅)
      have hchain₄ : κ₃.audit = κ₄.audit := h₄ .chain (by simp)
      have hchain₅ : κ₄.audit = κ₅.audit := h₅ .chain (by simp)
      have hrow₅ : κ₅.rows i.table uuid = some row := by rw [← hsame.1, hrow₂]
      obtain ⟨hnew, hn⟩ := approval_congr pg hsame hnew₂ hcount
      have happends₅ : Appends pg sha256 κ₅.audit (i.approvalRecord n rule.count) audit := by
        rw [← hchain₅, ← hchain₄]
        exact happends
      exact ⟨_, Moves.effect hcall huuid hrow₅ hcheck
        (.pending hrule hnew hn (Nat.lt_of_not_le hfew) happends₅), rfl⟩

theorem safe_transitionBody (hcall : calls c = .transition i) {quoted : String}
    (htable : quoteIdent i.table = .ok quoted) {peek : Row} :
    Safe (protection pg) (protocol pg host sha256 calls) c
      (EndsIn (protection pg) (protocol pg host sha256 calls) c (Ends host i))
      (transitionBody host sha256 i) (.looked (some peek) i.questions) ⟨.active [], []⟩ κ := by
  unfold transitionBody
  apply safe_check_bind
  · intro error herror
    rw [htable] at herror
    exact absurd herror (by simp)
  intro _ _
  rw [safe_bind]
  apply safe_tx
  case hfail =>
    intro _
    exact ends_fault
  intro κ₁ choice₁ found more₁ _ hexec₁
  simp only [Stmt.exec, Option.bind_eq_bind, Option.bind_eq_some_iff, Option.pure_def,
    Option.some.injEq, Prod.mk.injEq] at hexec₁
  obtain ⟨uuid, huuid, rfl, rfl⟩ := hexec₁
  rw [Engine.applyAll_nil]
  refine ⟨_, Moves.locked hcall huuid, ?_⟩
  rw [continues_ok, List.nil_append]
  -- the checks fail in the order of `checkRow`
  apply safe_check_bind
  · intro error herror
    refine .inr ⟨.locked rfl ?_, rfl⟩
    simp [ExecuteTransitionInput.checkRow, herror, bind, Except.bind]
  intro row hfound
  apply safe_check_bind
  · intro error herror
    refine .inr ⟨.locked rfl ?_, rfl⟩
    simp [ExecuteTransitionInput.checkRow, hfound, herror, bind, Except.bind]
  intro _ hfrom
  apply safe_check_bind
  · intro error herror
    refine .inr ⟨.locked rfl ?_, rfl⟩
    simp [ExecuteTransitionInput.checkRow, hfound, hfrom, herror, bind, Except.bind]
  intro _ hguard
  have hrow : κ₁.rows i.table uuid = some row := by
    cases hr : κ₁.rows i.table uuid with
    | none => simp [hr, ExecuteTransitionInput.requireRow] at hfound
    | some row' => simpa [hr, ExecuteTransitionInput.requireRow] using hfound
  have hcheck : i.checkRow host (some row) = .ok () := by
    rw [← hrow]
    simp [ExecuteTransitionInput.checkRow, hfound, hfrom, hguard, bind, Except.bind]
  have hlock : Lock.row i.table uuid ∈ (store pg).locks choice₁ κ₁
      (.selectForUpdate i.table i.recordId) := by
    simp [Stmt.locks, huuid, hrow]
  rw [hrow]
  cases hrule : i.transition.approval with
  | none =>
    apply safe_applyTransition hcall (by simp [OnlyApprovals]) huuid hlock (by simp) hrow hcheck htable
    intro κ' now audit _ happends
    exact .plain hrule happends
  | some rule => exact safe_approveTransition hcall hrule huuid hlock hrow hcheck htable

theorem safe_ask (hcall : calls c = .transition i) {granted : List Question} {q : Question}
    (hfrom : i.requireFrom row = .ok ())
    (hguard : q = .approve → checkGuardPredicates host i.transition i.model row = .ok ())
    (hnext : granted ++ [q] <+: i.questions) {R : Except Thrown Unit → Phase → Prop}
    (hgranted : R (.ok ()) (.looked (some row) (granted ++ [q])))
    (hthrown : ∀ φ thrown, MayReturn host (.transition i) φ (.error thrown) → R (.error thrown) φ) :
    Safe (protection pg) (protocol pg host sha256 calls) c (fun r φ σ _ => σ = .closed ∧ R r φ)
      (ask sha256 i q) (.looked (some row) granted) .closed κ := by
  unfold ask
  rw [safe_bind]
  apply Safe.mono
  · apply safe_decide (R := fun r φ' => match r with
      | .ok decision => R ((i.requireAllowed q decision).mapError .runtime) φ'
      | .error error => R (.error error) φ') hcall hfrom hguard hnext
    · intro decision hallow
      simp [ExecuteTransitionInput.requireAllowed, hallow, Except.mapError, hgranted]
    · intro decision hdeny
      simp only [ExecuteTransitionInput.requireAllowed, hdeny]
      exact hthrown _ _ (.forbidden rfl)
    · intro error herror
      exact hthrown _ _ (.faulted herror)
  · rintro r φ₁ σ κ₁ ⟨rfl, hr⟩
    cases r with
    | error error => exact ⟨rfl, hr⟩
    | ok decision =>
      rw [continues_ok, check, safe_ofExcept]
      exact ⟨rfl, hr⟩

theorem safe_authorize (hcall : calls c = .transition i) (hfrom : i.requireFrom row = .ok ())
    {R : Except Thrown Unit → Phase → Prop}
    (hgranted : R (.ok ()) (.looked (some row) i.questions))
    (hthrown : ∀ φ thrown, MayReturn host (.transition i) φ (.error thrown) → R (.error thrown) φ) :
    Safe (protection pg) (protocol pg host sha256 calls) c (fun r φ σ _ => σ = .closed ∧ R r φ)
      (authorize host sha256 i row) (.looked (some row) []) .closed κ := by
  unfold authorize
  rw [safe_bind]
  apply Safe.mono
  · apply safe_ask (R := OneOf (fun _ φ' => φ' = .looked (some row) [.fire]) fun thrown =>
      R (.error thrown)) hcall hfrom (by simp) (by simp [ExecuteTransitionInput.questions]) ?_
      hthrown
    rfl
  rintro r φ₁ σ κ₁ ⟨rfl, hr⟩
  cases r with
  | error error => exact ⟨rfl, hr⟩
  | ok _ =>
    subst hr
    rw [continues_ok]
    apply safe_check_bind
    · intro error herror
      exact ⟨rfl, hthrown _ _ (.predicates rfl hfrom herror)⟩
    intro _ hguard
    have hquestions : i.questions = if i.transition.approval.isSome then [.fire, .approve]
        else [.fire] := by
      unfold ExecuteTransitionInput.questions
      split <;> rfl
    split
    case isTrue hrule =>
      rw [if_pos hrule] at hquestions
      rw [hquestions] at hgranted
      exact safe_ask hcall hfrom (fun _ => hguard) (by simp [hquestions]) hgranted hthrown
    case isFalse hrule =>
      rw [if_neg hrule] at hquestions
      rw [hquestions] at hgranted
      exact ⟨rfl, hgranted⟩

theorem safe_executeTransition (hcall : calls c = .transition i) :
    Safe (protection pg) (protocol pg host sha256 calls) c
      (fun r φ σ _ => σ = .closed ∧ MayReturn host (.transition i) φ (r.map .outcome))
      (executeTransition host sha256 i) .invoked .closed κ := by
  unfold executeTransition
  apply safe_check_bind
  · intro error herror
    exact ⟨rfl, .identifier rfl herror⟩
  intro quoted htable
  rw [safe_bind]
  apply safe_query
  case hfail =>
    intro _
    exact ⟨rfl, .faulted .fault⟩
  intro κ₁ choice₁ peek writes₁ hexec₁
  simp only [Stmt.exec, Option.bind_eq_bind, Option.bind_eq_some_iff, Option.pure_def,
    Option.some.injEq, Prod.mk.injEq] at hexec₁
  obtain ⟨uuid, huuid, rfl, rfl⟩ := hexec₁
  refine ⟨by simp, _, Moves.looked hcall huuid, ?_⟩
  rw [continues_ok]
  generalize κ₁.rows i.table uuid = peek
  apply safe_check_bind
  · intro error herror
    cases peek with
    | some row => simp [ExecuteTransitionInput.requireRow] at herror
    | none =>
      simp only [ExecuteTransitionInput.requireRow, Except.error.injEq] at herror
      subst herror
      exact ⟨rfl, .missing rfl⟩
  intro row hpeek
  have hrow : peek = some row := by
    cases peek with
    | none => simp [ExecuteTransitionInput.requireRow] at hpeek
    | some row' => simpa [ExecuteTransitionInput.requireRow] using hpeek
  subst hrow
  apply safe_check_bind
  · intro error herror
    exact ⟨rfl, .state rfl herror⟩
  intro _ hfrom
  rw [safe_bind]
  apply Safe.mono
  · apply safe_authorize (R := OneOf (fun _ φ' => φ' = .looked (some row) i.questions)
      fun thrown φ' => MayReturn host (.transition i) φ' (.error thrown)) hcall hfrom rfl
      fun _ _ h => h
  rintro r φ₂ σ κ₂ ⟨rfl, hr⟩
  cases r with
  | error error => exact ⟨rfl, hr⟩
  | ok _ =>
    subst hr
    rw [continues_ok, safe_bind, safe_result]
    apply Safe.mono
    · exact safe_transaction (fun κ => safe_transitionBody hcall htable) ends_fault
    rintro r φ₃ σ κ₃ ⟨rfl, hr⟩
    rw [continues_ok]
    cases r with
    | ok outcome =>
      subst hr
      exact ⟨rfl, .done⟩
    | error raised =>
      rcases hr with ⟨rfl, rfl⟩ | ⟨hr, hevents⟩
      · -- the duplicate is recorded on a connection of its own
        dsimp only
        rw [safe_bind]
        apply Safe.mono
        · apply safe_appendAllOrFail_singleton (R := OneOf (fun _ φ' => φ' = .reported)
            fun thrown φ' => MayReturn host (.transition i) φ' (.error thrown)) allowsAppends
          · intro κ' audit happends
            exact ⟨_, Moves.reported hcall happends, rfl⟩
          · intro κ'
            exact logs_failure rfl
          · exact .faulted .batch
        rintro r φ₄ σ κ₄ ⟨rfl, hr⟩
        cases r with
        | error error => exact ⟨rfl, hr⟩
        | ok _ =>
          subst hr
          exact ⟨rfl, .duplicate rfl⟩
      · dsimp only
        rw [hevents]
        exact ⟨rfl, hr⟩

end Transition

section Entities

variable {r : EntityRequest} {mode : Mode}

/-- The body is checked; an attempt to write a state field is recorded before it is refused. -/
theorem safe_validateBodyAudited (hrequest : (calls c).request = some (r, mode))
    (herror : ∀ error, r.validated host mode = .error error → r.prepare host mode = .error error) :
    Safe (protection pg) (protocol pg host sha256 calls) c
      (fun x φ σ _ => σ = .closed ∧ match x with
        | .ok data => φ = .invoked ∧ r.validated host mode = .ok data
        | .error thrown => MayReturn host (calls c) φ (.error thrown))
      (validateBodyAudited host sha256 r mode) .invoked .closed κ := by
  unfold validateBodyAudited
  cases hdata : r.validated host mode with
  | ok data => exact ⟨rfl, rfl, rfl⟩
  | error error =>
    have hprepare := herror error hdata
    dsimp only
    split
    case isFalse hcode => exact ⟨rfl, .refused hrequest hprepare hcode⟩
    case isTrue hcode =>
      rw [safe_bind]
      apply Safe.mono
      · apply safe_appendOrFail (R := OneOf (fun _ φ' => φ' = .rejected error)
          fun thrown φ' => MayReturn host (calls c) φ' (.error thrown)) allowsAppends
        · intro κ' audit happends
          exact ⟨_, Moves.rejected hrequest hprepare hcode happends, rfl⟩
        · intro κ'
          exact logs_failure rfl
        · exact .faulted .append
      rintro x φ' σ κ' ⟨rfl, hx⟩
      cases x with
      | error thrown => exact ⟨rfl, hx⟩
      | ok _ =>
        subst hx
        exact ⟨rfl, .rejected hrequest⟩

theorem quoteIdent_code {name : String} {error : RuntimeError} (h : quoteIdent name = .error error) :
    error.code = .ERR_SQL_IDENTIFIER := by
  unfold quoteIdent at h
  split at h
  · exact absurd h (by simp)
  · rw [← Except.error.inj h]

theorem quoteColumns_code {values : List (String × Scalar)} {error : RuntimeError}
    (h : quoteColumns values = .error error) : error.code = .ERR_SQL_IDENTIFIER := by
  induction values with
  | nil => exact absurd h (by simp [quoteColumns, pure, Except.pure])
  | cons e values ih =>
    rw [quoteColumns, List.forM_eq_forM, List.forM_cons] at h
    cases hname : quoteIdent e.1 with
    | error error' =>
      simp only [hname, Except.map, bind, Except.bind, Except.error.injEq] at h
      rw [← h]
      exact quoteIdent_code hname
    | ok _ =>
      rw [hname] at h
      exact ih h

private theorem exec_insertRecord_cases {choice : Choice} {table : String} {values : List (String × Scalar)}
    {found : Option Row} {ws : List Write}
    (h : Stmt.exec pg choice κ (.insertRecord table values) = some (found, ws)) :
    ∃ stored, (values.map Prod.fst).Nodup ∧ encodeAll pg table values = some stored ∧
      κ.rows table choice.id = none ∧
      found = some (setAll (pg.newRow table choice.id choice.now) stored) ∧
      ws = [.insertRow table choice.id (setAll (pg.newRow table choice.id choice.now) stored)] := by
  simp only [Stmt.exec, Option.bind_eq_bind, Option.bind_eq_some_iff, Option.pure_def,
    Option.some.injEq, Prod.mk.injEq, Option.guard_eq_some', Option.isNone_iff_eq_none] at h
  obtain ⟨_, hnodup, stored, hstored, _, hfree, rfl, rfl⟩ := h
  exact ⟨stored, hnodup, hstored, hfree, rfl, rfl⟩

theorem safe_post (hcall : calls c = .create r) :
    Safe (protection pg) (protocol pg host sha256 calls) c
      (fun x φ σ _ => σ = .closed ∧ MayReturn host (calls c) φ x)
      (post host sha256 r) .invoked .closed κ := by
  have hrequest : (calls c).request = some (r, .create) := by rw [hcall, Call.request]
  unfold post
  rw [safe_bind]
  apply Safe.mono
  · apply safe_validateBodyAudited hrequest
    intro error herror
    simp [EntityRequest.prepare, EntityRequest.prepareInsert, herror, bind, Except.bind]
  rintro x φ₁ σ κ₁ ⟨rfl, hx⟩
  cases x with
  | error thrown => exact ⟨rfl, hx⟩
  | ok data =>
    obtain ⟨rfl, hdata⟩ := hx
    rw [continues_ok, safe_bind]
    unfold insertRecord
    dsimp only
    apply safe_check_bind
    · intro error herror
      have hprepare : r.prepare host .create = .error error := by
        simp [EntityRequest.prepare, EntityRequest.prepareInsert, hdata, herror, bind, Except.bind]
      exact ⟨rfl, .refused hrequest hprepare (by simp [quoteIdent_code herror])⟩
    intro quoted htable
    apply safe_check_bind
    · intro error herror
      have hprepare : r.prepare host .create = .error error := by
        simp [EntityRequest.prepare, EntityRequest.prepareInsert, hdata, htable, herror, bind,
          Except.bind]
      exact ⟨rfl, .refused hrequest hprepare (by simp [quoteColumns_code herror])⟩
    intro _ hcolumns
    have hprepare : r.prepareInsert host = .ok (r.insertColumns data) := by
      have hdata' : r.validated host .create = .ok data := hdata
      simp [EntityRequest.prepareInsert, hdata', htable, hcolumns, bind, Except.bind, pure,
        Except.pure]
    rw [safe_bind]
    apply safe_query
    case hfail =>
      intro _
      exact ⟨rfl, .faulted .fault⟩
    intro κ₂ choice found writes hexec
    obtain ⟨stored, hnodup, hstored, hfree, rfl, rfl⟩ := exec_insertRecord_cases hexec
    refine ⟨?_, _, Moves.created hcall hprepare hnodup hstored hfree, ?_⟩
    · intro w hw l htouched
      rw [List.mem_singleton] at hw
      subst hw
      cases l with
      | chain => exact False.elim htouched
      | row table id =>
        obtain ⟨rfl, rfl⟩ := htouched
        simp [Stmt.locks]
    · simp only [continues_ok, safe_pure]
      rw [safe_bind]
      apply safe_ext (.inr rfl)
      case hfail =>
        intro _ _ hanswer
        exact absurd hanswer (by simp)
      intro κ₃ _ _ _ _
      exact ⟨_, Moves.log (by simp), rfl, .done⟩

private theorem exec_updateRecord {choice : Choice} {table id : String}
    {values : List (String × Scalar)} {found : Option Row} {ws : List Write}
    (h : Stmt.exec pg choice κ (.updateRecord table values id) = some (found, ws)) :
    ∃ uuid stored, pg.uuid id = some uuid ∧ encodeAll pg table values = some stored ∧
      ((κ.rows table uuid = none ∧ found = none ∧ ws = []) ∨
        ∃ row, κ.rows table uuid = some row ∧
          found = some (setAll row (stored ++ [("updated_at", .date choice.now)])) ∧
          ws = [.setColumns table uuid (stored ++ [("updated_at", .date choice.now)])]) := by
  simp only [Stmt.exec, Option.bind_eq_bind, Option.bind_eq_some_iff, Option.pure_def,
    Option.guard_eq_some'] at h
  obtain ⟨uuid, huuid, _, _, stored, hstored, h⟩ := h
  refine ⟨uuid, stored, huuid, hstored, ?_⟩
  split at h
  · rename_i hrow
    obtain ⟨rfl, rfl⟩ := Prod.mk.inj (Option.some.inj h)
    exact .inl ⟨hrow, rfl, rfl⟩
  · rename_i row hrow
    obtain ⟨rfl, rfl⟩ := Prod.mk.inj (Option.some.inj h)
    exact .inr ⟨row, hrow, rfl, rfl⟩

theorem safe_put (hcall : calls c = .update r) :
    Safe (protection pg) (protocol pg host sha256 calls) c
      (fun x φ σ _ => σ = .closed ∧ MayReturn host (calls c) φ x)
      (put host sha256 r) .invoked .closed κ := by
  have hrequest : (calls c).request = some (r, .update) := by rw [hcall, Call.request]
  unfold put
  apply safe_check_bind
  · intro error herror
    have hprepare : r.prepare host .update = .error error := by
      simp [EntityRequest.prepare, EntityRequest.prepareUpdate, herror, bind, Except.bind]
    refine ⟨rfl, .refused hrequest hprepare ?_⟩
    unfold EntityRequest.requireUuid at herror
    split at herror
    · exact absurd herror (by simp)
    · rw [← Except.error.inj herror]
      simp [EntityRequest.notUuid]
  intro _ huuid
  have huuid' : r.requireUuid = .ok () := huuid
  rw [safe_bind]
  apply Safe.mono
  · apply safe_validateBodyAudited hrequest
    intro error herror
    simp [EntityRequest.prepare, EntityRequest.prepareUpdate, huuid', herror, bind, Except.bind]
  rintro x φ₁ σ κ₁ ⟨rfl, hx⟩
  cases x with
  | error thrown => exact ⟨rfl, hx⟩
  | ok data =>
    obtain ⟨rfl, hdata⟩ := hx
    rw [continues_ok]
    apply safe_check_bind
    · intro error herror
      have hprepare : r.prepare host .update = .error error := by
        simp [EntityRequest.prepare, EntityRequest.prepareUpdate, huuid', hdata, herror, bind,
          Except.bind]
      refine ⟨rfl, .refused hrequest hprepare ?_⟩
      unfold requireData at herror
      split at herror
      · rw [← Except.error.inj herror]
        simp [EntityRequest.nothingToUpdate]
      · exact absurd herror (by simp)
    intro _ hsome
    have hsome' : requireData data = .ok () := hsome
    dsimp only
    apply safe_check_bind
    · intro error herror
      have hprepare : r.prepare host .update = .error error := by
        simp [EntityRequest.prepare, EntityRequest.prepareUpdate, huuid', hdata, hsome', herror, bind,
          Except.bind]
      exact ⟨rfl, .refused hrequest hprepare (by simp [quoteColumns_code herror])⟩
    intro _ hcolumns
    have hprepare : r.prepareUpdate host = .ok (r.columns data) := by
      have hcolumns' : quoteColumns (r.columns data) = .ok () := hcolumns
      simp [EntityRequest.prepareUpdate, huuid', hdata, hsome', hcolumns', bind, Except.bind, pure,
        Except.pure]
    rw [safe_bind]
    apply safe_query
    case hfail =>
      intro _
      exact ⟨rfl, .faulted .fault⟩
    intro κ₂ choice found writes hexec
    obtain ⟨uuid, stored, hid, hstored, ⟨hrow, rfl, rfl⟩ | ⟨row, hrow, rfl, rfl⟩⟩ :=
      exec_updateRecord hexec
    · exact ⟨by simp, _, Moves.absent hcall hprepare hid hrow, rfl, .absent hcall⟩
    · refine ⟨?_, _, Moves.updated hcall hprepare hid hstored hrow, ?_⟩
      · intro w hw l htouched
        rw [List.mem_singleton] at hw
        subst hw
        cases l with
        | chain => exact False.elim htouched
        | row table id =>
          obtain ⟨rfl, rfl⟩ := htouched
          simp [Stmt.locks, hid, hrow]
      · rw [continues_ok]
        dsimp only
        rw [safe_bind]
        apply safe_ext (.inr rfl)
        case hfail =>
          intro _ _ hanswer
          exact absurd hanswer (by simp)
        intro κ₃ _ _ _ _
        exact ⟨_, Moves.log (by simp), rfl, .done⟩

end Entities

theorem safe_handle :
    Safe (protection pg) (protocol pg host sha256 calls) c
      (fun x φ σ _ => σ = .closed ∧ MayReturn host (calls c) φ x)
      (handle host sha256 (calls c)) .invoked .closed κ := by
  cases hcall : calls c with
  | transition i =>
    rw [handle, safe_bind]
    apply (safe_executeTransition hcall).mono
    rintro x φ σ κ' ⟨rfl, hx⟩
    cases x <;> exact ⟨rfl, hx⟩
  | create r =>
    show Safe _ _ _ _ (post host sha256 r) _ _ _
    rw [← hcall]
    exact safe_post hcall
  | update r =>
    show Safe _ _ _ _ (put host sha256 r) _ _ _
    rw [← hcall]
    exact safe_put hcall

theorem safe_serve :
    Safe (protection pg) (protocol pg host sha256 calls) c (fun _ _ _ _ => True)
      (serve host sha256 (calls c)) .ready .closed κ := by
  unfold serve
  rw [safe_bind]
  apply safe_ext (.inr rfl)
  case hfail =>
    intro _ _ _
    trivial
  intro κ₁ _ _ _ _
  refine ⟨.invoked, Moves.invoked, ?_⟩
  rw [continues_ok, safe_bind, safe_result]
  apply safe_handle.mono
  rintro x φ σ κ₂ ⟨rfl, hx⟩
  rw [continues_ok]
  apply safe_ext (.inr rfl)
  case hfail =>
    intro _ _ _
    trivial
  intro κ₃ _ _ _ _
  exact ⟨.finished x, Moves.returned hx, trivial⟩

/-- Whatever the schedule, what happens on the server is a trace of the calls. -/
theorem trace_of_run [DecidableEq Client] {init : Contents} {schedule : List (Client × Choice)}
    {W : World (store pg) Client Thrown Unit}
    (hrun : World.run schedule (server pg host sha256 calls init) = some W) :
    ∃ phases, (protocol pg host sha256 calls).Trace (fun _ => .ready) init W.history phases
      W.contents :=
  exists_trace (fun _ => safe_serve) hrun

end OpenRupiv.Runtime
