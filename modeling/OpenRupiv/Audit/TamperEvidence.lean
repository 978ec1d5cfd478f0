import OpenRupiv.Audit.Store
import OpenRupiv.Lib.HashChain

/-!
# What verification proves

`verifyChain` accepts exactly the chains of correctly hashed records.  When the hash is injective,
an accepted chain is determined by its last hash, up to what the canonical form does not show:
the order of members, the sign of zero, infinities and own `__proto__` members.  A chain made of
records of an accepted chain is accepted exactly when it is a prefix of it.
-/

namespace OpenRupiv.Audit

open Js Lib

/-- The chain of `prevHash` and `hash`. -/
def auditChain : HashChain AuditRecord Int String where
  seq := fun r => r.seq
  back := fun r => r.prevHash
  digest := fun r => r.hash
  genesis := GENESIS_HASH
  first := 1
  next := fun n => number (n + 1)

def HashOk (sha256 : String → String) (r : AuditRecord) : Prop :=
  hashRecord sha256 r.toAuditRecordBody = r.hash

variable {sha256 : String → String}

theorem recordFailure_eq_none_iff {prev : Option AuditRecord} {r : AuditRecord} :
    recordFailure sha256 prev r = none ↔ auditChain.Follows prev r ∧ HashOk sha256 r := by
  have hseq : auditChain.nextSeq prev = nextSeq prev := by
    cases prev <;> rfl
  have hback : auditChain.nextBack prev = nextPrevHash prev := by
    cases prev <;> rfl
  have hfollows : auditChain.Follows prev r ↔ r.seq = nextSeq prev ∧
      r.prevHash = nextPrevHash prev := by
    rw [HashChain.Follows, hseq, hback]
    rfl
  rw [hfollows, recordFailure, HashOk]
  split
  · simp_all
  · split
    · simp_all
    · split <;> simp_all

theorem firstFailure_eq_none_iff {prev : Option AuditRecord} {l : List AuditRecord} :
    firstFailure sha256 prev l = none ↔
      auditChain.Chained prev l ∧ ∀ r ∈ l, HashOk sha256 r := by
  induction l generalizing prev with
  | nil => simp [firstFailure]
  | cons r rest ih =>
    rw [firstFailure, HashChain.chained_cons, List.forall_mem_cons]
    cases hr : recordFailure sha256 prev r with
    | some reason =>
      have hnot : ¬(auditChain.Follows prev r ∧ HashOk sha256 r) := by
        rw [← recordFailure_eq_none_iff, hr]
        exact Option.some_ne_none reason
      simp only [reduceCtorEq, false_iff]
      tauto
    | none =>
      have hok := recordFailure_eq_none_iff.mp hr
      simp only [ih]
      tauto

theorem verifyChain_eq_ok_iff {l : List AuditRecord} {n : Nat} :
    verifyChain sha256 l = .ok n ↔
      l.length = n ∧ auditChain.Chained none l ∧ ∀ r ∈ l, HashOk sha256 r := by
  rw [← firstFailure_eq_none_iff, verifyChain]
  cases h : firstFailure sha256 none l with
  | none => simp
  | some f => simp

theorem appendRecord_follows (prev : Option AuditRecord) (input : AuditRecordInput) (now : Text) :
    auditChain.Follows prev (appendRecord sha256 prev input now) ∧
      HashOk sha256 (appendRecord sha256 prev input now) := by
  rw [← recordFailure_eq_none_iff]
  simp [recordFailure, appendRecord]

private theorem two_le_iterate (n : Nat) : 2 ≤ auditChain.next^[n + 1] auditChain.first := by
  induction n with
  | zero => exact two_le_number (le_refl 2)
  | succ n ih =>
    rw [Function.iterate_succ_apply']
    apply two_le_number
    omega

private theorem auditChain_first_ne (n : Nat) :
    auditChain.next^[n + 1] auditChain.first ≠ auditChain.first := by
  intro h
  have h1 : auditChain.first = 1 := rfl
  have := two_le_iterate n
  omega

/-- Agreement on the hashed text. -/
def SameText (r r' : AuditRecord) : Prop :=
  canonicalize r.toAuditRecordBody = canonicalize r'.toAuditRecordBody

private theorem sameText_of_hash_eq (hinj : Function.Injective sha256) {r r' : AuditRecord}
    (hr : HashOk sha256 r) (hr' : HashOk sha256 r') (h : r.hash = r'.hash) : SameText r r' := by
  apply hinj
  exact hr.trans (h.trans hr'.symm)

private theorem SameText.link {r r' : AuditRecord} (h : SameText r r') :
    auditChain.seq r = auditChain.seq r' ∧ auditChain.back r = auditChain.back r' := by
  obtain ⟨hbody, -⟩ := (canonicalize_eq_iff _ _).mp h
  exact ⟨congrArg (fun b => b.seq) hbody, congrArg (fun b => b.prevHash) hbody⟩

/-- Equality up to the order of members and the sign of zero. -/
def SameValue (v w : Value) : Prop :=
  v.json.rebuild Scalar.unsigned .sorted = w.json.rebuild Scalar.unsigned .sorted

/-- The value without its own `__proto__` members, infinities read as `null`. -/
def shownValue (v : Value) : Value := v.rebuild Scalar.finite plainKeys

def SameRecord (r r' : AuditRecord) : Prop :=
  { r with attributes := r'.attributes } = r' ∧ SameValue r.attributes r'.attributes

def shownRecord (r : AuditRecord) : AuditRecord := { r with attributes := shownValue r.attributes }

private theorem SameRecord.link {r r' : AuditRecord} (h : SameRecord (shownRecord r) (shownRecord r')) :
    auditChain.seq r = auditChain.seq r' ∧ auditChain.back r = auditChain.back r' :=
  ⟨congrArg (fun r => r.seq) h.1, congrArg (fun r => r.prevHash) h.1⟩

private theorem normalForm_eq_shown (v : Value) :
    normalForm v.json = (shownValue v).json.rebuild Scalar.unsigned .sorted := by
  have hprinted : Scalar.unsigned ∘ Scalar.finite = Scalar.printed := by
    funext s
    exact s.unsigned_finite
  rw [shownValue, Value.rebuild, Json.rebuild_rebuild, hprinted]
  rfl

private theorem sameText_iff {r r' : AuditRecord} (hhash : r.hash = r'.hash) :
    SameText r r' ↔ SameRecord (shownRecord r) (shownRecord r') := by
  rw [SameText, canonicalize_eq_iff, normalForm_eq_shown, normalForm_eq_shown, SameRecord,
    SameValue]
  apply and_congr_left'
  obtain ⟨b, hash⟩ := r
  obtain ⟨b', hash'⟩ := r'
  simp only [shownRecord, AuditRecord.mk.injEq] at hhash ⊢
  cases b
  cases b'
  constructor <;>
    · intro h
      simp_all

/-- Accepted chains of one length end in one hash exactly when they show the same records. -/
theorem lastHash_eq_iff (hinj : Function.Injective sha256) {l l' : List AuditRecord} {n : Nat}
    (h : verifyChain sha256 l = .ok n) (h' : verifyChain sha256 l' = .ok n) :
    l.getLast?.map (·.hash) = l'.getLast?.map (·.hash) ↔
      List.Forall₂ SameRecord (l.map shownRecord) (l'.map shownRecord) := by
  obtain ⟨hlen, hchain, hok⟩ := verifyChain_eq_ok_iff.mp h
  obtain ⟨hlen', hchain', hok'⟩ := verifyChain_eq_ok_iff.mp h'
  rw [List.forall₂_map_left_iff, List.forall₂_map_right_iff]
  cases l using List.reverseRecOn with
  | nil =>
    have hnil : l' = [] := by
      apply List.eq_nil_of_length_eq_zero
      rw [hlen', ← hlen, List.length_nil]
    simp [hnil]
  | append_singleton l r =>
    cases l' using List.reverseRecOn with
    | nil =>
      rw [List.length_append, List.length_singleton] at hlen
      rw [List.length_nil] at hlen'
      omega
    | append_singleton l' r' =>
      rw [List.getLast?_concat, List.getLast?_concat, Option.map_some, Option.map_some,
        Option.some.injEq]
      constructor
      · intro hlast
        have hcommit : ∀ p ∈ l ++ [r], ∀ p' ∈ l' ++ [r'], p.hash = p'.hash →
            SameRecord (shownRecord p) (shownRecord p') := by
          intro p hp p' hp' hhash
          exact (sameText_iff hhash).mp (sameText_of_hash_eq hinj (hok p hp) (hok' p' hp') hhash)
        apply HashChain.forall₂_of_last auditChain_first_ne SameRecord.link _ hchain hchain'
        · exact hcommit r (by simp) r' (by simp) hlast
        · intro p hp p' hp'
          exact hcommit p (by simp [hp]) p' (by simp [hp'])
      · intro hall
        rw [← List.forall₂_reverse_iff, List.reverse_concat, List.reverse_concat,
          List.forall₂_cons] at hall
        exact congrArg (fun r => r.hash) hall.1.1

/-- Of two accepted chains of one length with one last hash, the records are the same exactly when
the chains do not differ in members named `__proto__` and infinities alone. -/
theorem same_of_lastHash_iff (sha256 : String → String) (hinj : Function.Injective sha256)
    (rows rows' : List AuditRow) (n : Nat)
    (h : verifyChain sha256 (rows.map rowToRecord) = .ok n)
    (h' : verifyChain sha256 (rows'.map rowToRecord) = .ok n) :
    (((rows.map rowToRecord).getLast?.map (·.hash) =
        (rows'.map rowToRecord).getLast?.map (·.hash)) →
      List.Forall₂ SameRecord (rows.map rowToRecord) (rows'.map rowToRecord)) ↔
    (List.Forall₂ SameRecord ((rows.map rowToRecord).map shownRecord)
        ((rows'.map rowToRecord).map shownRecord) →
      List.Forall₂ SameRecord (rows.map rowToRecord) (rows'.map rowToRecord)) := by
  rw [lastHash_eq_iff hinj h h']

private def firstBody (attributes : Object) : AuditRecordBody where
  event := "auth.login"
  actor := "alice"
  actorType := .human
  subject := none
  decision := none
  attributes := attributes.toValue
  seq := 1
  timestamp := toISOString 0
  prevHash := GENESIS_HASH

private def firstRow (attributes : Object) : AuditRow where
  event := "auth.login"
  actor := "alice"
  actor_type := .human
  subject := none
  decision := none
  attributes := attributes.toValue
  seq := 1
  timestamp := .date 0
  prev_hash := GENESIS_HASH
  hash := canonicalize (firstBody attributes)

private theorem rowToRecord_firstRow (attributes : Object) :
    rowToRecord (firstRow attributes) =
      { firstBody attributes with hash := canonicalize (firstBody attributes) } := by
  have hseq : number 1 = 1 := number_of_le (by decide)
  simp only [rowToRecord, firstRow, firstBody, hseq]
  rfl

private theorem verifyChain_firstRow (attributes : Object) :
    verifyChain id ([firstRow attributes].map rowToRecord) = .ok 1 := by
  rw [List.map_singleton, rowToRecord_firstRow, verifyChain_eq_ok_iff]
  refine ⟨rfl, ⟨⟨rfl, rfl⟩, trivial⟩, ?_⟩
  intro r hr
  rw [List.mem_singleton.mp hr]
  rfl

/-- `{ "__proto__": { "granted": true } }`. -/
private def protoObject : Object where
  members := [(protoKey, .obj [(ofString "granted", .scalar (.bool true))])]
  distinct := by decide

/-- `{ "granted": true }`. -/
private def grantedObject : Object where
  members := [(ofString "granted", .scalar (.bool true))]
  distinct := by decide

theorem same_of_lastHash_firstRow :
    (([firstRow protoObject].map rowToRecord).getLast?.map (·.hash) =
        ([firstRow grantedObject].map rowToRecord).getLast?.map (·.hash) →
      List.Forall₂ SameRecord ([firstRow protoObject].map rowToRecord)
        ([firstRow grantedObject].map rowToRecord)) ↔
    (List.Forall₂ SameRecord (([firstRow protoObject].map rowToRecord).map shownRecord)
        (([firstRow grantedObject].map rowToRecord).map shownRecord) →
      List.Forall₂ SameRecord ([firstRow protoObject].map rowToRecord)
        ([firstRow grantedObject].map rowToRecord)) :=
  same_of_lastHash_iff id Function.injective_id _ _ 1 (verifyChain_firstRow _)
    (verifyChain_firstRow _)

/-- Adding an own `__proto__` member to the attributes changes neither the verdict nor the hash. -/
theorem proto_edit_undetected :
    ¬∀ (sha256 : String → String), Function.Injective sha256 →
      ∀ (rows rows' : List AuditRow) (n : Nat),
        verifyChain sha256 (rows.map rowToRecord) = .ok n →
        verifyChain sha256 (rows'.map rowToRecord) = .ok n →
        (rows.map rowToRecord).getLast?.map (·.hash) =
          (rows'.map rowToRecord).getLast?.map (·.hash) →
        List.Forall₂ SameRecord (rows.map rowToRecord) (rows'.map rowToRecord) := by
  intro claim
  have hhash : canonicalize (firstBody protoObject) = canonicalize (firstBody .empty) := by
    rw [canonicalize_eq_iff]
    refine ⟨rfl, ?_⟩
    show normalForm (.obj protoObject.members) = normalForm (.obj Object.empty.members)
    rw [normalForm_obj, normalForm_obj]
    rfl
  have hall := claim id Function.injective_id [firstRow protoObject] [firstRow .empty] 1
    (verifyChain_firstRow _) (verifyChain_firstRow _) (congrArg some hhash)
  simp only [List.map_cons, List.map_nil, List.forall₂_cons, List.Forall₂.nil, and_true] at hall
  have hattr : Json.rebuild Scalar.unsigned .sorted (.obj protoObject.members) =
      Json.rebuild Scalar.unsigned .sorted (.obj Object.empty.members) := hall.2
  rw [Json.rebuild_obj, Json.rebuild_obj, Json.obj.injEq] at hattr
  exact absurd (congrArg List.length hattr) (by decide)

/-- A list made of records of an accepted chain is rejected exactly when it is no prefix of it. -/
theorem rejected_iff_not_prefix (sha256 : String → String) (hinj : Function.Injective sha256)
    (l l' : List AuditRecord) (n : Nat) (h : verifyChain sha256 l = .ok n) (hsub : l' ⊆ l) :
    (∃ failedSeq reason, verifyChain sha256 l' = .failed failedSeq reason) ↔ ¬l' <+: l := by
  obtain ⟨-, hchain, hok⟩ := verifyChain_eq_ok_iff.mp h
  have haccept : firstFailure sha256 none l' = none ↔ l' <+: l := by
    rw [firstFailure_eq_none_iff]
    constructor
    · rintro ⟨hchain', hok'⟩
      apply HashChain.prefix_of_subset auditChain_first_ne SameText.link (fun _ => rfl) _ hchain hchain' hsub
      intro p hp p' hp' hhash
      exact sameText_of_hash_eq hinj (hok' p hp) (hok p' hp') hhash
    · intro hpre
      exact ⟨HashChain.chained_of_prefix hchain hpre, fun r hr => hok r (hpre.subset hr)⟩
  rw [← haccept, verifyChain]
  cases firstFailure sha256 none l' with
  | none => simp
  | some f => simp

private def loginInput : AuditRecordInput where
  event := "auth.login"
  actor := "alice"
  actorType := .human
  subject := none
  decision := none
  attributes := none

private def firstRecord : AuditRecord := appendRecord id none loginInput (toISOString 0)

private def secondRecord : AuditRecord :=
  appendRecord id (some firstRecord) loginInput (toISOString 1000)

private theorem verifyChain_first : verifyChain id [firstRecord] = .ok 1 := by
  have h1 := @appendRecord_follows id none loginInput (toISOString 0)
  rw [verifyChain_eq_ok_iff]
  refine ⟨rfl, ⟨h1.1, trivial⟩, ?_⟩
  intro r hr
  rw [List.mem_singleton.mp hr]
  exact h1.2

private theorem verifyChain_two : verifyChain id [firstRecord, secondRecord] = .ok 2 := by
  have h1 := @appendRecord_follows id none loginInput (toISOString 0)
  have h2 := @appendRecord_follows id (some firstRecord) loginInput (toISOString 1000)
  rw [verifyChain_eq_ok_iff]
  refine ⟨rfl, ⟨h1.1, h2.1, trivial⟩, ?_⟩
  intro r hr
  rw [List.mem_pair] at hr
  cases hr with
  | inl h => exact h ▸ h1.2
  | inr h => exact h ▸ h2.2

theorem rejected_iff_not_prefix_two :
    (∃ failedSeq reason, verifyChain id [secondRecord] = .failed failedSeq reason) ↔
      ¬[secondRecord] <+: [firstRecord, secondRecord] :=
  rejected_iff_not_prefix id Function.injective_id [firstRecord, secondRecord] [secondRecord] 2
    verifyChain_two (List.subset_cons_self _ _)

/-- A chain cut off at its end is accepted. -/
theorem truncation_undetected :
    ¬∀ (sha256 : String → String), Function.Injective sha256 →
      ∀ (l l' : List AuditRecord) (n : Nat), l ≠ [] → verifyChain sha256 l = .ok n → l' ≠ l →
        l' ⊆ l → ∃ failedSeq reason, verifyChain sha256 l' = .failed failedSeq reason := by
  intro claim
  have hne : [firstRecord] ≠ [firstRecord, secondRecord] := by
    intro h
    exact absurd (congrArg List.length h) (by decide)
  obtain ⟨failedSeq, reason, hrejected⟩ := claim id Function.injective_id
    [firstRecord, secondRecord] [firstRecord] 2 (List.cons_ne_nil _ _) verifyChain_two hne
    (List.cons_subset_cons _ (List.nil_subset _))
  rw [verifyChain_first] at hrejected
  cases hrejected

end OpenRupiv.Audit
