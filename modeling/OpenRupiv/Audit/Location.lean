import OpenRupiv.Audit.TamperEvidence

/-!
# Where verification fails

`verifyChain` goes as far as the chain is correct.  The failure it reports is that of the first
record after the longest accepted prefix; the record that `appendRecord` makes never fails.
-/

namespace OpenRupiv.Audit

open Js Lib

variable {sha256 : String → String}

/-- The chain is verified. -/
def Accepted (sha256 : String → String) (records : List AuditRecord) : Prop :=
  ∃ n, verifyChain sha256 records = .ok n

/-- The check that stands for `reason` in `verifyChain` is the first that `record` fails after
`prev`. -/
def FirstFailed (sha256 : String → String) (prev : Option AuditRecord) (record : AuditRecord) :
    Reason → Prop
  | .seq_gap => record.seq ≠ nextSeq prev
  | .bad_genesis => record.seq = nextSeq prev ∧ record.prevHash ≠ nextPrevHash prev ∧ prev = none
  | .chain_break => record.seq = nextSeq prev ∧ record.prevHash ≠ nextPrevHash prev ∧ prev ≠ none
  | .hash_mismatch => record.seq = nextSeq prev ∧ record.prevHash = nextPrevHash prev ∧
      hashRecord sha256 record.toAuditRecordBody ≠ record.hash

theorem recordFailure_eq_some_iff {prev : Option AuditRecord} {record : AuditRecord}
    {reason : Reason} :
    recordFailure sha256 prev record = some reason ↔ FirstFailed sha256 prev record reason := by
  unfold recordFailure
  by_cases hseq : record.seq = nextSeq prev
  · rw [if_neg (not_not.mpr hseq)]
    by_cases hlink : record.prevHash = nextPrevHash prev
    · rw [if_neg (not_not.mpr hlink)]
      by_cases hhash : hashRecord sha256 record.toAuditRecordBody = record.hash
      · cases reason <;> simp [FirstFailed, hseq, hlink, hhash]
      · cases reason <;> simp [FirstFailed, hseq, hlink, hhash]
    · rw [if_pos hlink]
      cases prev with
      | none => cases reason <;> simp [FirstFailed, hseq, hlink]
      | some p => cases reason <;> simp [FirstFailed, hseq, hlink]
  · rw [if_pos hseq]
    cases reason <;> simp [FirstFailed, hseq]

theorem firstFailure_eq_some_iff {prev : Option AuditRecord} {l : List AuditRecord} {seq : Int}
    {reason : Reason} :
    firstFailure sha256 prev l = some (seq, reason) ↔
      ∃ before record after, l = before ++ record :: after ∧
        firstFailure sha256 prev before = none ∧ record.seq = seq ∧
        recordFailure sha256 (before.getLast?.or prev) record = some reason := by
  induction l generalizing prev with
  | nil => simp [firstFailure]
  | cons r rest ih =>
    rw [firstFailure]
    cases hr : recordFailure sha256 prev r with
    | some found =>
      constructor
      · intro h
        obtain ⟨rfl, rfl⟩ := Prod.mk.inj (Option.some.inj h)
        exact ⟨[], r, rest, rfl, rfl, rfl, hr⟩
      · rintro ⟨before, record, after, hl, hnone, rfl, hfound⟩
        cases before with
        | nil =>
          obtain ⟨rfl, rfl⟩ := List.cons.inj hl
          rw [List.getLast?_nil, Option.none_or, hr] at hfound
          rw [Option.some.inj hfound]
        | cons b before =>
          -- the failing record would be among the accepted ones
          obtain ⟨rfl, -⟩ := List.cons.inj hl
          simp [firstFailure, hr] at hnone
    | none =>
      simp only [ih]
      constructor
      · rintro ⟨before, record, after, rfl, hnone, hseq, hfound⟩
        refine ⟨r :: before, record, after, rfl, ?_, hseq, ?_⟩
        · rw [firstFailure, hr]
          exact hnone
        · rw [List.getLast?_cons, Option.some_or]
          cases hlast : before.getLast? <;> simpa [hlast] using hfound
      · rintro ⟨before, record, after, hl, hnone, hseq, hfound⟩
        cases before with
        | nil =>
          obtain ⟨rfl, rfl⟩ := List.cons.inj hl
          rw [List.getLast?_nil, Option.none_or, hr] at hfound
          exact absurd hfound (by simp)
        | cons b before =>
          obtain ⟨rfl, rfl⟩ := List.cons.inj hl
          rw [firstFailure, hr] at hnone
          refine ⟨before, record, after, rfl, hnone, hseq, ?_⟩
          rw [List.getLast?_cons, Option.some_or] at hfound
          cases hlast : before.getLast? <;> simpa [hlast] using hfound

theorem accepted_iff {l : List AuditRecord} :
    Accepted sha256 l ↔ firstFailure sha256 none l = none := by
  unfold Accepted verifyChain
  cases h : firstFailure sha256 none l with
  | none => simp
  | some f => simp

/-- What is accepted before a failing record is no longer accepted with it. -/
theorem accepted_take_iff {before after : List AuditRecord} {record : AuditRecord} {reason : Reason}
    (hbefore : firstFailure sha256 none before = none)
    (hfailure : recordFailure sha256 before.getLast? record = some reason) {m : Nat} :
    Accepted sha256 ((before ++ record :: after).take m) ↔ m ≤ before.length := by
  rw [accepted_iff]
  constructor
  · intro h
    by_contra hlong
    obtain ⟨k, hk⟩ := Nat.exists_eq_add_of_lt (Nat.lt_of_not_le hlong)
    have htake : (before ++ record :: after).take m = before ++ record :: after.take k := by
      rw [hk, Nat.add_assoc, List.take_length_add_append, List.take_succ_cons]
    have hsome : firstFailure sha256 none (before ++ record :: after.take k) =
        some (record.seq, reason) := by
      apply firstFailure_eq_some_iff.mpr
      exact ⟨before, record, after.take k, rfl, hbefore, rfl, by rwa [Option.or_none]⟩
    rw [htake, hsome] at h
    exact absurd h (by simp)
  · intro h
    rw [List.take_append_of_le_length h]
    rw [firstFailure_eq_none_iff] at hbefore ⊢
    refine ⟨HashChain.chained_of_prefix hbefore.1 (List.take_prefix m before), ?_⟩
    intro r hr
    exact hbefore.2 r (List.mem_of_mem_take hr)

/-- An accepted chain stays accepted with the record that `appendRecord` makes after its last one,
and counts one more.  A rejected list has a longest accepted prefix; the reported `failedSeq` is
that of the record after it, and the reported reason is the first check that this record fails. -/
theorem verifyChain_extends_and_locates (sha256 : String → String) (records : List AuditRecord) :
    (∀ n, verifyChain sha256 records = .ok n → ∀ input timestamp,
      verifyChain sha256 (records ++ [appendRecord sha256 records.getLast? input timestamp]) =
        .ok (n + 1)) ∧
    ∀ failedSeq reason, verifyChain sha256 records = .failed failedSeq reason →
      ∃ (k : Nat) (hk : k < records.length),
        (∀ m ≤ records.length, Accepted sha256 (records.take m) ↔ m ≤ k) ∧
        failedSeq = records[k].seq ∧
        FirstFailed sha256 (records.take k).getLast? records[k] reason := by
  constructor
  · intro n h input timestamp
    obtain ⟨hlength, hchain, hhash⟩ := verifyChain_eq_ok_iff.mp h
    obtain ⟨hfollows, hown⟩ :=
      @appendRecord_follows sha256 records.getLast? input timestamp
    apply verifyChain_eq_ok_iff.mpr
    refine ⟨by rw [List.length_append, hlength, List.length_singleton], ?_, ?_⟩
    · exact HashChain.chained_concat.mpr ⟨hchain, hfollows⟩
    · intro r hr
      rcases List.mem_append.mp hr with hr | hr
      · exact hhash r hr
      · rw [List.mem_singleton.mp hr]
        exact hown
  · intro failedSeq reason h
    have hfirst : firstFailure sha256 none records = some (failedSeq, reason) := by
      unfold verifyChain at h
      cases hf : firstFailure sha256 none records with
      | none => simp [hf] at h
      | some f => simpa [hf, Prod.ext_iff] using h
    obtain ⟨before, record, after, rfl, hbefore, hseq, hfailure⟩ :=
      firstFailure_eq_some_iff.mp hfirst
    rw [Option.or_none] at hfailure
    refine ⟨before.length, by simp, ?_, ?_, ?_⟩
    · intro m _
      exact accepted_take_iff hbefore hfailure
    · simpa using hseq.symm
    · simpa using recordFailure_eq_some_iff.mp hfailure

private def opening : AuditRecord :=
  appendRecord id none
    { event := [], actor := [], actorType := .system, subject := none, decision := none,
      attributes := none } []

theorem verifyChain_extends_and_locates_opening :
    verifyChain id ([opening] ++ [appendRecord id [opening].getLast?
      { event := [], actor := [], actorType := .human, subject := none, decision := none,
        attributes := none } []]) = .ok 2 ∧
    ∃ (k : Nat) (hk : k < [opening, opening].length),
      (∀ m ≤ [opening, opening].length, Accepted id ([opening, opening].take m) ↔ m ≤ k) ∧
      1 = [opening, opening][k].seq ∧
      FirstFailed id ([opening, opening].take k).getLast? [opening, opening][k] .seq_gap := by
  have hone : verifyChain id [opening] = .ok 1 := by
    apply verifyChain_eq_ok_iff.mpr
    obtain ⟨hfollows, hown⟩ := @appendRecord_follows id none
      { event := [], actor := [], actorType := .system, subject := none, decision := none,
        attributes := none } []
    refine ⟨rfl, ⟨hfollows, trivial⟩, ?_⟩
    intro r hr
    rw [List.mem_singleton.mp hr]
    exact hown
  have htwo : verifyChain id [opening, opening] = .failed 1 .seq_gap := by
    have hnone : recordFailure id none opening = none :=
      recordFailure_eq_none_iff.mpr (appendRecord_follows none _ [])
    have hgap : recordFailure id (some opening) opening = some .seq_gap := by
      apply recordFailure_eq_some_iff.mpr
      change (1 : Int) ≠ number (1 + 1)
      decide
    simp [verifyChain, firstFailure, hnone, hgap]
    rfl
  exact ⟨(verifyChain_extends_and_locates id [opening]).1 1 hone _ [],
    (verifyChain_extends_and_locates id [opening, opening]).2 1 .seq_gap htwo⟩

end OpenRupiv.Audit
