import OpenRupiv.Sandbox.Slots

/-!
# The run id gate

`POST /v1/execute` takes the last segment of `/` and the run id.  It refuses what is no UUID, unless
a path leads to one.
-/

namespace OpenRupiv.Sandbox

open Js Lib

def lastSegment (path : Text) : Option Text := ((path.splitOn 47).filter fun s => s ≠ []).getLast?

theorem lastSegment_slash (s : Text) : lastSegment (ofString "/" ++ s) = lastSegment s := by
  have hslash : ofString "/" = [47] := by decide
  rw [lastSegment, hslash, List.singleton_append, List.splitOn_cons_eq_if_modifyHead]
  simp [lastSegment]

theorem extractRunId_slash (s : Text) :
    extractRunId (ofString "/" ++ s) = (lastSegment s).filter isValidRunId := by
  rw [← lastSegment_slash]
  rfl

theorem lastSegment_of_notMem {s : Text} (h : 47 ∉ s) (hne : s ≠ []) : lastSegment s = some s := by
  rw [lastSegment, List.splitOn_eq_singleton h]
  simp [hne]

theorem slash_notMem_runId {s : Text} (h : isValidRunId s = true) : 47 ∉ s := by
  intro hslash
  unfold isValidRunId at h
  split at h
  · rename_i a b c d e hsplit
    simp only [Bool.and_eq_true] at h
    rcases @mem_splitOn _ _ 45 _ _ hslash with h45 | ⟨group, hgroup, hmem⟩
    · exact absurd h45 (by decide)
    · rw [hsplit] at hgroup
      have hdigit := List.all_eq_true.mp (List.all_eq_true.mp h.1.1.2 group hgroup) 47 hmem
      exact absurd hdigit (by decide)
  · exact absurd h (by simp)

theorem isValidRunId_nil : isValidRunId [] = false := by decide

/-- `typeof body.runId === "string"`. -/
def stringOf : Option Json → Option Text
  | some (.scalar (.str s)) => some s
  | _ => none

def badRunId : Answer := { code := 400, body := .error "ERR_SANDBOX_BAD_RUN_ID" }

theorem resolve_ne_badRunId (tool : Option Text) (next : Except Thrown Text → Handler Answer)
    (hbad : ∀ e, next (.error e) ≠ .ret badRunId) :
    ((resolveEntrypoint tool).result.bind next : Handler Answer) ≠ .ret badRunId := by
  cases tool with
  | none => exact hbad _
  | some tool =>
    by_cases hbare : isBareName tool = true
    · simp only [resolveEntrypoint, if_pos hbare]
      intro h
      cases h
    · simp only [resolveEntrypoint, if_neg hbare]
      exact hbad _

theorem execute_badRunId_iff {hashToken : Text → String} {deps : ServerDeps} {req : ExecuteRequest}
    (hauth : (req.bearer.all fun bearer => hashToken bearer ≠ hashToken deps.token) = false)
    (hcanary : deps.canaryOk = true) :
    execute hashToken deps req ≠ .ret badRunId ↔
      ∃ s last, req.runId = some s ∧ lastSegment s = some last ∧ isValidRunId last = true := by
  have hextract : (req.runId.bind fun id => extractRunId (ofString "/" ++ id)) =
      (req.runId.bind lastSegment).filter isValidRunId := by
    cases req.runId with
    | none => rfl
    | some s => exact extractRunId_slash s
  unfold execute
  simp only [hauth, hcanary, Bool.false_eq_true, if_false, Bool.not_true, hextract]
  cases hid : (req.runId.bind lastSegment).filter isValidRunId with
  | none =>
    refine iff_of_false (fun hne => hne rfl) ?_
    rintro ⟨s, last, hrunId, hlast, hvalid⟩
    rw [hrunId, Option.bind_some, hlast] at hid
    exact absurd hid (by simp [hvalid])
  | some runId =>
    obtain ⟨hbind, hvalid⟩ := Option.filter_eq_some_iff.mp hid
    obtain ⟨s, hrunId, hlast⟩ := Option.bind_eq_some_iff.mp hbind
    refine iff_of_true ?_ ⟨s, runId, hrunId, hlast, hvalid⟩
    apply resolve_ne_badRunId
    intro e h
    have hanswer : (Prog.ret badTool : Handler Answer) = .ret badRunId := h
    exact absurd hanswer (by simp [badTool, badRunId])

theorem stringOf_eq_some {v : Option Json} {s : Text} :
    stringOf v = some s ↔ v = some (.scalar (.str s)) := by
  unfold stringOf
  split
  · simp [eq_comm]
  · rename_i hne
    simp only [reduceCtorEq, false_iff]
    rintro rfl
    exact hne s rfl

/-- Exactly the UUIDs are let through, unless a path that ends in one is sent. -/
theorem run_id_gate_iff (hashToken : Text → String) (deps : ServerDeps) (req : ExecuteRequest)
    (hauth : (req.bearer.all fun bearer => hashToken bearer ≠ hashToken deps.token) = false)
    (hcanary : deps.canaryOk = true) (v : Option Json) (hrunId : req.runId = stringOf v) :
    (execute hashToken deps req ≠ .ret badRunId ↔
        ∃ s, v = some (.scalar (.str s)) ∧ isValidRunId s = true) ↔
      ∀ s last, v = some (.scalar (.str s)) → 47 ∈ s → lastSegment s = some last →
        isValidRunId last = false := by
  rw [execute_badRunId_iff hauth hcanary, hrunId]
  simp only [stringOf_eq_some]
  constructor
  · intro hgate s last hv hslash hlast
    rw [Bool.eq_false_iff]
    intro hvalid
    obtain ⟨s', hv', hwhole⟩ := hgate.mp ⟨s, last, hv, hlast, hvalid⟩
    obtain rfl : s = s' := by simpa [hv] using hv'
    exact slash_notMem_runId hwhole hslash
  · intro hpath
    constructor
    · rintro ⟨s, last, hv, hlast, hvalid⟩
      have hslash : 47 ∉ s := by
        intro hslash
        rw [hpath s last hv hslash hlast] at hvalid
        exact absurd hvalid (by simp)
      have hne : s ≠ [] := by
        rintro rfl
        rw [show lastSegment [] = none by decide] at hlast
        exact absurd hlast (by simp)
      rw [lastSegment_of_notMem hslash hne, Option.some.injEq] at hlast
      exact ⟨s, hv, hlast ▸ hvalid⟩
    · rintro ⟨s, hv, hvalid⟩
      have hne : s ≠ [] := by
        rintro rfl
        exact absurd hvalid (by decide)
      exact ⟨s, s, hv, lastSegment_of_notMem (slash_notMem_runId hvalid) hne, hvalid⟩

/-- A supervisor that is well. -/
def healthy : ServerDeps where
  token := ofString "token"
  canaryOk := true
  assertions := .arr []
  concurrency := { maxConcurrent := 4, maxQueueDepth := 8, positive := by decide }

/-- A request with the token and a run id. -/
def withRunId (runId : Text) : ExecuteRequest where
  bearer := some (ofString "token")
  runId := some runId
  tool := some (ofString "read-vendor-application")
  input := .obj []
  limits := ⟨some (.ofInt 30000), some (.ofInt 268435456), some (.ofInt 1048576)⟩

def sampleRunId : Text := ofString "6f1f64c2-2f6e-4b0e-9a51-0d3a1f2b7c11"

/-- A UUID is let through. -/
theorem run_id_gate_uuid :
    (execute (fun _ => "") healthy (withRunId sampleRunId) ≠ .ret badRunId ↔
        ∃ s, some (Json.scalar (.str sampleRunId)) = some (.scalar (.str s)) ∧
          isValidRunId s = true) ↔
      ∀ s last, some (Json.scalar (.str sampleRunId)) = some (.scalar (.str s)) → 47 ∈ s →
        lastSegment s = some last → isValidRunId last = false :=
  run_id_gate_iff (fun _ => "") healthy (withRunId sampleRunId) rfl rfl _ rfl

/-- A path that leads to a UUID is let through as well. -/
theorem traversal_let_through :
    execute (fun _ => "") healthy (withRunId (ofString "../../etc/" ++ sampleRunId)) ≠
        .ret badRunId ∧
      isValidRunId (ofString "../../etc/" ++ sampleRunId) = false := by
  constructor
  · refine (execute_badRunId_iff rfl rfl).mpr ⟨_, sampleRunId, rfl, ?_, ?_⟩
    · decide
    · decide
  · decide

end OpenRupiv.Sandbox
