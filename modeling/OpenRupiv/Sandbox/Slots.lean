import OpenRupiv.Sandbox.Server
import OpenRupiv.Lib.Protocol

/-!
# Slots and workspaces

Where each request stands in `execute`, and what that says of the semaphore, the running jails, the
directories and the request's own part of the history.
-/

namespace OpenRupiv.Sandbox

open Js Lib

section

variable {ρ : Type} [DecidableEq ρ] {capacity : Capacity}

abbrev Entry (ρ : Type) [DecidableEq ρ] (capacity : Capacity) := (machine ρ capacity).Event

/-- The request got a slot. -/
@[simp] def Entry.acquires (e : Entry ρ capacity) : Bool :=
  match e.op, e.reply with
  | .acquire, some .acquired => true
  | .slot, some _ => true
  | _, _ => false

@[simp] def Entry.releases (e : Entry ρ capacity) : Bool :=
  match e.op with
  | .release => true
  | _ => false

/-- The directory the operation is about. -/
@[simp] def Entry.touches (e : Entry ρ capacity) : Option Text :=
  match e.op with
  | .mkdir id | .writeToolInput id _ | .startJail id _ _ | .awaitJail id | .lstat id | .unlink id
  | .realpath id | .rm id => some id
  | _ => none

/-- The directory the operation is meant to remove. -/
@[simp] def Entry.removes (e : Entry ρ capacity) : Option Text :=
  match e.op with
  | .unlink id | .rm id => some id
  | _ => none

/-- A `mkdir` that found the directory there. -/
@[simp] def Entry.refused (e : Entry ρ capacity) : Bool :=
  match e.op, e.reply with
  | .mkdir _, some .eexist => true
  | _, _ => false

/-- The directory that a request owns after an operation of its own: from its `mkdir` until it
removes it or gives its slot back. -/
@[simp] def Entry.ownedAfter (owned : Option Text) (e : Entry ρ capacity) : Option Text :=
  match e.op, e.reply with
  | .mkdir id, some .created => some id
  | .unlink _, some _ => none
  | .rm _, some _ => none
  | .release, _ => none
  | _, _ => owned

/-- What one request did. -/
def own (history : List (Entry ρ capacity)) (r : ρ) : List (Entry ρ capacity) :=
  history.filter fun e => e.client = r

def owns (history : List (Entry ρ capacity)) (r : ρ) : Option Text :=
  (own history r).foldl Entry.ownedAfter none

theorem own_concat_self (history : List (Entry ρ capacity)) (e : Entry ρ capacity) :
    own (history ++ [e]) e.client = own history e.client ++ [e] := by
  simp [own]

theorem own_concat_of_ne {history : List (Entry ρ capacity)} {e : Entry ρ capacity} {r : ρ}
    (h : e.client ≠ r) : own (history ++ [e]) r = own history r := by
  simp [own, h]

end

abbrev RunId := {id : Text // isValidRunId id = true}

/-- Where a request stands: what it does next. -/
inductive Phase where
  | arrived (id : RunId) (tool : Text)
  | entering (id : RunId) (entrypoint : Text)
  | waiting (id : RunId) (entrypoint : Text)
  | holding (id : RunId) (entrypoint : Text)
  | writing (id : RunId) (entrypoint : Text)
  | starting (id : RunId) (entrypoint : Text)
  | jailed (id : RunId)
  | inspecting (id : RunId) (result : Except Thrown Answer)
  | unlinking (id : RunId) (result : Except Thrown Answer)
  | locating (id : RunId) (result : Except Thrown Answer)
  | removing (id : RunId) (result : Except Thrown Answer)
  | releasing (kept : Option RunId) (result : Except Thrown Answer)
  | finished (acquired : Bool) (result : Except Thrown Answer)

namespace Phase

/-- The request has a slot or waits for one. -/
@[simp] def claims : Phase → Bool
  | .arrived _ _ | .entering _ _ | .finished _ _ => false
  | _ => true

@[simp] def waits : Phase → Bool
  | .waiting _ _ => true
  | _ => false

/-- The request has not asked for a slot yet. -/
@[simp] def fresh : Phase → Bool
  | .arrived _ _ | .entering _ _ => true
  | _ => false

@[simp] def jails : Phase → Bool
  | .jailed _ => true
  | _ => false

@[simp] def owned : Phase → Option Text
  | .writing id _ | .starting id _ | .jailed id | .inspecting id _ | .unlinking id _
  | .locating id _ | .removing id _ => some id
  | .releasing kept _ => kept.map Subtype.val
  | _ => none

@[simp] def acquired : Phase → Nat
  | .arrived _ _ | .entering _ _ | .waiting _ _ | .finished false _ => 0
  | _ => 1

@[simp] def released : Phase → Nat
  | .finished true _ => 1
  | _ => 0

@[simp] def inUse : Except Thrown Answer → Bool
  | .ok a => a.code == 409
  | .error _ => false

/-- The request has come to no directory, or will answer that it is in use. -/
@[simp] def apart : Phase → Bool
  | .arrived _ _ | .entering _ _ | .waiting _ _ | .holding _ _ => true
  | .releasing _ result => inUse result
  | .finished _ result => inUse result
  | _ => false

/-- The answer of a request that owns a directory is another one. -/
@[simp] def settled : Phase → Bool
  | .inspecting _ result | .unlinking _ result | .locating _ result | .removing _ result =>
      !inUse result
  | _ => true

end Phase

def badTool : Answer := { code := 400, body := .error "ERR_SANDBOX_BAD_TOOL" }

def badLimits : Answer := { code := 400, body := .error "ERR_SANDBOX_BAD_LIMITS" }

def atCapacity : Answer := { code := 503, body := .error "ERR_SANDBOX_AT_CAPACITY" }

def runIdInUse : Answer := { code := 409, body := .error "ERR_SANDBOX_RUN_ID_IN_USE" }

def inputWrite : Answer := { code := 500, body := .error "ERR_SANDBOX_INPUT_WRITE" }

/-- The operation that is next. -/
def Phase.op (limits : JailLimits) (input : Json) : Phase → Option Op
  | .arrived _ tool => some (.resolveEntrypoint tool)
  | .entering _ _ => some .acquire
  | .waiting _ _ => some .slot
  | .holding id _ => some (.mkdir id)
  | .writing id _ => some (.writeToolInput id input)
  | .starting id entrypoint => some (.startJail id entrypoint limits)
  | .jailed id => some (.awaitJail id)
  | .inspecting id _ => some (.lstat id)
  | .unlinking id _ => some (.unlink id)
  | .locating id _ => some (.realpath id)
  | .removing id _ => some (.rm id)
  | .releasing _ _ => some .release
  | .finished _ _ => none

def Phase.after (limits : JailLimits) : Phase → (k : Op) → Option k.Reply → Phase
  | .arrived _ _, .resolveEntrypoint _, none => .finished false (.ok badTool)
  | .arrived id _, .resolveEntrypoint _, some entrypoint =>
      if limits.accepted then .entering id entrypoint else .finished false (.ok badLimits)
  | .entering id entrypoint, .acquire, some .acquired => .holding id entrypoint
  | .entering id entrypoint, .acquire, some .queued => .waiting id entrypoint
  | .entering _ _, .acquire, some .atCapacity => .finished false (.ok atCapacity)
  | .entering _ _, .acquire, none => .finished false (.error .failed)
  | .waiting id entrypoint, .slot, some _ => .holding id entrypoint
  | .waiting _ _, .slot, none => .finished false (.error .failed)
  | .holding id entrypoint, .mkdir _, some .created => .writing id entrypoint
  | .holding _ _, .mkdir _, some .eexist => .releasing none (.ok runIdInUse)
  | .holding _ _, .mkdir _, none => .releasing none (.error .failed)
  | .writing id entrypoint, .writeToolInput _ _, some _ => .starting id entrypoint
  | .writing id _, .writeToolInput _ _, none => .inspecting id (.ok inputWrite)
  | .starting id _, .startJail _ _ _, some _ => .jailed id
  | .starting id _, .startJail _ _ _, none => .inspecting id (.error .failed)
  | .jailed id, .awaitJail _, some outcome =>
      .inspecting id (.ok { code := 200, body := .outcome outcome })
  | .jailed id, .awaitJail _, none => .inspecting id (.error .failed)
  | .inspecting id result, .lstat _, some .symlink => .unlinking id result
  | .inspecting id result, .lstat _, some .other => .locating id result
  | .inspecting id result, .lstat _, none => .releasing (some id) result
  | .unlinking _ result, .unlink _, some _ => .releasing none result
  | .unlinking id result, .unlink _, none => .releasing (some id) result
  | .locating id result, .realpath _, some true => .removing id result
  | .locating id result, .realpath _, _ => .releasing (some id) result
  | .removing _ result, .rm _, some _ => .releasing none result
  | .removing id result, .rm _, none => .releasing (some id) result
  | .releasing _ result, .release, some _ => .finished true result
  | .releasing _ _, .release, none => .finished true (.error .failed)
  | φ, _, _ => φ

section

variable (hashToken : Text → String) (deps : ServerDeps) (req : ExecuteRequest)

def slotted (p : Handler Answer) : Handler Answer := .tryFinally p (perform .release)

/-- The rest of `execute` once the entrypoint is resolved. -/
def entered (id : RunId) (entrypoint : Text) (acquiring : Handler Unit) : Handler Answer := do
  match ← acquiring.result with
  | .error Thrown.atCapacity => return atCapacity
  | .error e => .throw e
  | .ok () => withSlot req id entrypoint

/-- The rest of `execute` in each phase. -/
def code : Phase → Handler Answer
  | .arrived id tool => do
      match ← (perform (.resolveEntrypoint tool)).result with
      | .error (_ : Thrown) => return badTool
      | .ok entrypoint =>
          if !req.limits.accepted then return badLimits else entered req id entrypoint acquireSlot
  | .entering id entrypoint => entered req id entrypoint acquireSlot
  | .waiting id entrypoint => entered req id entrypoint (perform .slot)
  | .holding id entrypoint => withSlot req id entrypoint
  | .writing id entrypoint => slotted (inWorkspace req id entrypoint)
  | .starting id entrypoint => slotted (.tryFinally (do
        let outcome ← runJailFn req id entrypoint
        return { code := 200, body := .outcome outcome })
      (cleanupWorkspace id))
  | .jailed id => slotted (.tryFinally (do
        let outcome ← perform (.awaitJail id)
        return { code := 200, body := .outcome outcome })
      (cleanupWorkspace id))
  | .inspecting id result => slotted (do
      cleanupWorkspace id
      .ofExcept result)
  | .unlinking id result => slotted (do
      Prog.attempt (.unlink id)
      .ofExcept result)
  | .locating id result => slotted (do
      removeWorkspace id
      .ofExcept result)
  | .removing id result => slotted (do
      Prog.attempt (.rm id)
      .ofExcept result)
  | .releasing _ result => do
      perform .release
      .ofExcept result
  | .finished _ result => .ofExcept result

theorem code_op (φ : Phase) {k : Op} (h : φ.op req.limits req.input = some k) :
    code req φ = .call k fun reply => code req (φ.after req.limits k reply) := by
  cases φ <;> cases h
  case arrived id tool =>
    refine congrArg (Prog.call _) (funext fun reply => ?_)
    cases reply with
    | none => rfl
    | some entrypoint =>
      show (if !req.limits.accepted then _ else _) = code req (if req.limits.accepted then _ else _)
      cases req.limits.accepted <;> rfl
  case entering id entrypoint =>
    refine congrArg (Prog.call _) (funext fun reply => ?_)
    cases reply with
    | none => rfl
    | some outcome => cases outcome <;> rfl
  case waiting id entrypoint =>
    refine congrArg (Prog.call _) (funext fun reply => ?_)
    cases reply <;> rfl
  case holding id entrypoint =>
    rw [code, withSlot, createWorkspace, if_pos id.2]
    refine congrArg (Prog.call _) (funext fun reply => ?_)
    cases reply with
    | none => rfl
    | some outcome => cases outcome <;> rfl
  case writing id entrypoint =>
    refine congrArg (Prog.call _) (funext fun reply => ?_)
    cases reply <;> rfl
  case starting id entrypoint =>
    refine congrArg (Prog.call _) (funext fun reply => ?_)
    cases reply <;> rfl
  case jailed id =>
    refine congrArg (Prog.call _) (funext fun reply => ?_)
    cases reply <;> rfl
  case inspecting id result =>
    rw [code, cleanupWorkspace, if_pos id.2]
    refine congrArg (Prog.call _) (funext fun reply => ?_)
    cases reply with
    | none => cases result <;> rfl
    | some kind => cases kind <;> rfl
  case unlinking id result =>
    refine congrArg (Prog.call _) (funext fun reply => ?_)
    cases reply <;> cases result <;> rfl
  case locating id result =>
    refine congrArg (Prog.call _) (funext fun reply => ?_)
    cases reply with
    | none => cases result <;> rfl
    | some underRoot => cases underRoot <;> cases result <;> rfl
  case removing id result =>
    refine congrArg (Prog.call _) (funext fun reply => ?_)
    cases reply <;> cases result <;> rfl
  case releasing kept result =>
    refine congrArg (Prog.call _) (funext fun reply => ?_)
    cases reply <;> rfl

/-- A request that nothing has been done for: it is answered at once, or its entrypoint is next. -/
def Phase.starts : Phase → Bool
  | .arrived _ _ => true
  | .finished false (.ok a) => a.code != 409
  | _ => false

theorem isValidRunId_of_extractRunId {path id : Text} (h : extractRunId path = some id) :
    isValidRunId id = true :=
  (Option.filter_eq_some_iff.mp h).2

theorem execute_starts : ∃ φ : Phase, φ.starts = true ∧ execute hashToken deps req = code req φ := by
  unfold execute
  split
  · exact ⟨.finished false (.ok _), rfl, rfl⟩
  · split
    · exact ⟨.finished false (.ok _), rfl, rfl⟩
    · cases hid : req.runId.bind fun id => extractRunId (ofString "/" ++ id) with
      | none => exact ⟨.finished false (.ok _), rfl, rfl⟩
      | some id =>
        have hvalid : isValidRunId id = true := by
          obtain ⟨_, _, hextract⟩ := Option.bind_eq_some_iff.mp hid
          exact isValidRunId_of_extractRunId hextract
        cases htool : req.tool with
        | none => exact ⟨.finished false (.ok badTool), rfl, rfl⟩
        | some tool =>
          by_cases hbare : isBareName tool = true
          · refine ⟨.arrived ⟨id, hvalid⟩ tool, rfl, ?_⟩
            simp only [resolveEntrypoint, if_pos hbare]
            refine congrArg (Prog.call _) (funext fun reply => ?_)
            cases reply with
            | none => rfl
            | some entrypoint =>
              show (if !req.limits.accepted then _ else _) = if !req.limits.accepted then _ else _
              congr 1
          · refine ⟨.finished false (.ok badTool), rfl, ?_⟩
            simp only [resolveEntrypoint, if_neg hbare]
            rfl

end

section

variable {ρ : Type} [DecidableEq ρ] {capacity : Capacity}

/-- The slots and the queue, given who has a slot or waits, who waits, and who has not asked yet. -/
structure SlotInv (capacity : Capacity) (claims waits fresh : ρ → Bool)
    (s : ExecutionSemaphore ρ) : Prop where
  holders : ∃ holders, s.Slots capacity holders ∧ ∀ r, r ∈ holders ++ s.queue ↔ claims r = true
  queued : ∀ r ∈ s.queue, waits r = true
  unreleased : ∀ r, fresh r = true → s.released r = false

/-- Each directory has one owner at most, and it is there. -/
structure DirInv (owned : ρ → Option Text) (present : Text → Bool) : Prop where
  one : ∀ r r' id, owned r = some id → owned r' = some id → r = r'
  there : ∀ r id, owned r = some id → present id = true

/-- The running jails are those of the requests that await one. -/
structure JailInv (jailed : ρ → Bool) (jails : List ρ) : Prop where
  nodup : jails.Nodup
  mem : ∀ r, r ∈ jails ↔ jailed r = true

/-- What a request has done so far, given where it stands. -/
structure OwnInv (φ : Phase) (own : List (Entry ρ capacity)) : Prop where
  acquired : own.countP Entry.acquires = φ.acquired
  released : own.countP Entry.releases = φ.released
  owned : own.foldl Entry.ownedAfter none = φ.owned
  apart : φ.apart = true → ∀ e ∈ own, e.touches ≠ none → e.refused = true
  settled : φ.settled = true
  begun : own = [] → φ.starts = true

structure Inv (phases : ρ → Phase) (σ : Supervisor ρ) (history : List (Entry ρ capacity)) : Prop where
  slots : SlotInv capacity (Phase.claims ∘ phases) (Phase.waits ∘ phases) (Phase.fresh ∘ phases)
    σ.semaphore
  dirs : DirInv (Phase.owned ∘ phases) σ.present
  jails : JailInv (Phase.jails ∘ phases) σ.jails
  own : ∀ r, OwnInv (phases r) (own history r)
  removals : ∀ p e s id, history = p ++ e :: s → Entry.removes e = some id →
    owns p e.client = some id

/-- What an operation does to the phase of its client and adds to its history. -/
structure Phase.Step (φ φ' : Phase) (e : Entry ρ capacity) : Prop where
  acquired : φ'.acquired = φ.acquired + if e.acquires then 1 else 0
  released : φ'.released = φ.released + if e.releases then 1 else 0
  owned : e.ownedAfter φ.owned = φ'.owned
  apart : φ.settled = true → φ'.apart = true →
    φ.apart = true ∧ (e.touches ≠ none → e.refused = true)
  settled : φ.settled = true → φ'.settled = true
  removes : ∀ id, e.removes = some id → φ.owned = some id

theorem OwnInv.concat {φ φ' : Phase} {own : List (Entry ρ capacity)} {e : Entry ρ capacity}
    (h : OwnInv φ own) (hstep : φ.Step φ' e) : OwnInv φ' (own ++ [e]) := by
  constructor
  · rw [List.countP_append, h.acquired, hstep.acquired, List.countP_singleton]
  · rw [List.countP_append, h.released, hstep.released, List.countP_singleton]
  · rw [List.foldl_append, h.owned]
    exact hstep.owned
  · intro hφ' d hd htouches
    have hφ := hstep.apart h.settled hφ'
    rcases List.mem_append.mp hd with hd | hd
    · exact h.apart hφ.1 d hd htouches
    · rw [List.mem_singleton.mp hd] at htouches ⊢
      exact hφ.2 htouches
  · exact hstep.settled h.settled
  · intro hnil
    exact absurd hnil (by simp)

theorem Phase.step_after (capacity : Capacity) {limits : JailLimits} {input : Json} {φ : Phase}
    {k : Op} (r : ρ)
    (hop : φ.op limits input = some k) (reply : Option k.Reply) :
    φ.Step (φ.after limits k reply) (⟨r, k, reply⟩ : Entry ρ capacity) := by
  cases φ <;> cases hop
  case arrived id tool =>
    cases reply with
    | none => constructor <;> simp [after]
    | some entrypoint =>
      simp only [after]
      split <;> constructor <;> simp
  case entering id entrypoint =>
    cases reply with
    | none => constructor <;> simp [after]
    | some outcome => cases outcome <;> constructor <;> simp [after]
  case waiting id entrypoint => cases reply <;> constructor <;> simp [after]
  case holding id entrypoint =>
    cases reply with
    | none => constructor <;> simp [after]
    | some outcome => cases outcome <;> constructor <;> simp [after, runIdInUse]
  case writing id entrypoint => cases reply <;> constructor <;> simp [after, inputWrite]
  case starting id entrypoint => cases reply <;> constructor <;> simp [after]
  case jailed id => cases reply <;> constructor <;> simp [after]
  case inspecting id result =>
    cases reply with
    | none => constructor <;> simp [after]
    | some kind => cases kind <;> constructor <;> simp [after]
  case unlinking id result => cases reply <;> constructor <;> simp [after]
  case locating id result =>
    cases reply with
    | none => constructor <;> simp [after]
    | some underRoot => cases underRoot <;> constructor <;> simp [after]
  case removing id result => cases reply <;> constructor <;> simp [after]
  case releasing kept result => cases reply <;> constructor <;> simp [after]

section

variable {claims waits fresh : ρ → Bool} {s : ExecutionSemaphore ρ} {r : ρ}

theorem SlotInv.acquired (h : SlotInv capacity claims waits fresh s) (hclaims : claims r = false)
    (hfresh : fresh r = true) (hout : (s.acquire capacity r).1 = .acquired) :
    SlotInv capacity (Function.update claims r true) waits (Function.update fresh r false)
      (s.acquire capacity r).2 := by
  obtain ⟨holders, hslots, hmem⟩ := h.holders
  have hnew : r ∉ holders ++ s.queue := by
    rw [hmem, hclaims]
    decide
  obtain ⟨hreleased, hcase⟩ := hslots.acquire hnew (h.unreleased r hfresh)
  rw [hout] at hcase
  refine ⟨⟨r :: holders, hcase.2, ?_⟩, ?_, ?_⟩
  · intro q
    rw [hcase.1, List.cons_append, List.mem_cons, hmem]
    by_cases hq : q = r <;> simp [hq]
  · rw [hcase.1]
    exact h.queued
  · intro q hq
    rw [hreleased]
    by_cases hqr : q = r
    · simp [hqr] at hq
    · rw [Function.update_of_ne hqr] at hq
      exact h.unreleased q hq

theorem SlotInv.waited (h : SlotInv capacity claims waits fresh s) (hclaims : claims r = false)
    (hfresh : fresh r = true) (hout : (s.acquire capacity r).1 = .queued) :
    SlotInv capacity (Function.update claims r true) (Function.update waits r true)
      (Function.update fresh r false) (s.acquire capacity r).2 := by
  obtain ⟨holders, hslots, hmem⟩ := h.holders
  have hnew : r ∉ holders ++ s.queue := by
    rw [hmem, hclaims]
    decide
  obtain ⟨hreleased, hcase⟩ := hslots.acquire hnew (h.unreleased r hfresh)
  rw [hout] at hcase
  refine ⟨⟨holders, hcase.2, ?_⟩, ?_, ?_⟩
  · intro q
    rw [hcase.1, ← List.append_assoc, List.mem_append, hmem, List.mem_singleton]
    by_cases hq : q = r <;> simp [hq]
  · intro q hq
    rw [hcase.1] at hq
    by_cases hqr : q = r
    · simp [hqr]
    · rw [Function.update_of_ne hqr]
      exact h.queued q (by simpa [hqr] using hq)
  · intro q hq
    rw [hreleased]
    by_cases hqr : q = r
    · simp [hqr] at hq
    · rw [Function.update_of_ne hqr] at hq
      exact h.unreleased q hq

theorem SlotInv.refused (h : SlotInv capacity claims waits fresh s) (hclaims : claims r = false)
    (hfresh : fresh r = true) (hout : (s.acquire capacity r).1 = .atCapacity) :
    SlotInv capacity claims waits (Function.update fresh r false) (s.acquire capacity r).2 := by
  obtain ⟨holders, hslots, hmem⟩ := h.holders
  have hnew : r ∉ holders ++ s.queue := by
    rw [hmem, hclaims]
    decide
  obtain ⟨-, hcase⟩ := hslots.acquire hnew (h.unreleased r hfresh)
  rw [hout] at hcase
  rw [hcase]
  refine ⟨h.holders, h.queued, fun q hq => ?_⟩
  by_cases hqr : q = r
  · simp [hqr] at hq
  · rw [Function.update_of_ne hqr] at hq
    exact h.unreleased q hq

omit [DecidableEq ρ] in
theorem SlotInv.mono [DecidableEq ρ] {fresh' : ρ → Bool} (h : SlotInv capacity claims waits fresh s)
    (hfresh : ∀ r, fresh' r = true → fresh r = true) : SlotInv capacity claims waits fresh' s :=
  ⟨h.holders, h.queued, fun r hr => h.unreleased r (hfresh r hr)⟩

theorem SlotInv.granted (h : SlotInv capacity claims waits fresh s) (hout : r ∉ s.queue) :
    SlotInv capacity claims (Function.update waits r false) fresh s := by
  refine ⟨h.holders, fun q hq => ?_, h.unreleased⟩
  have hne : q ≠ r := by
    rintro rfl
    exact hout hq
  rw [Function.update_of_ne hne]
  exact h.queued q hq

theorem SlotInv.release (h : SlotInv capacity claims waits fresh s) (hclaims : claims r = true)
    (hwaits : waits r = false) (hfresh : fresh r = false) :
    SlotInv capacity (Function.update claims r false) waits fresh (s.release r) := by
  obtain ⟨holders, hslots, hmem⟩ := h.holders
  have hqueue : r ∉ s.queue := by
    intro hr
    rw [h.queued r hr] at hwaits
    exact absurd hwaits (by decide)
  have hr : r ∈ holders := (List.mem_append.mp ((hmem r).mpr hclaims)).resolve_right hqueue
  obtain ⟨htail, hslots'⟩ := hslots.release hr
  have hnodup : holders.Nodup := (List.nodup_append.mp hslots.nodup).1
  have hparts : ∀ q, q ∈ s.queue ↔ q ∈ s.queue.head?.toList ∨ q ∈ s.queue.tail := by
    intro q
    cases s.queue <;> simp
  refine ⟨⟨_, hslots', fun q => ?_⟩, ?_, ?_⟩
  · have hq := hmem q
    rw [List.mem_append, hparts] at hq
    rw [htail, List.mem_append, List.mem_append, hnodup.mem_erase_iff]
    by_cases hqr : q = r
    · subst hqr
      rw [hparts] at hqueue
      simp only [Function.update_self]
      tauto
    · rw [Function.update_of_ne hqr, ← hq]
      tauto
  · intro q hq
    rw [htail] at hq
    exact h.queued q (List.mem_of_mem_tail hq)
  · intro q hq
    have hqr : q ≠ r := by
      rintro rfl
      rw [hfresh] at hq
      exact absurd hq (by decide)
    have hkeep : (s.release r).released q = s.released q := by
      unfold ExecutionSemaphore.release
      split
      · rfl
      · split <;> exact Function.update_of_ne hqr _ _
    rw [hkeep]
    exact h.unreleased q hq

end

section

variable {owned : ρ → Option Text} {present : Text → Bool} {r : ρ} {id : Text}

theorem DirInv.create (h : DirInv owned present) (hfree : present id = false) :
    DirInv (Function.update owned r (some id)) (Function.update present id true) := by
  have hnew : ∀ q, owned q ≠ some id := by
    intro q hq
    rw [h.there q id hq] at hfree
    exact absurd hfree (by decide)
  have hcases : ∀ q id', Function.update owned r (some id) q = some id' →
      (q = r ∧ id' = id) ∨ owned q = some id' := by
    intro q id' hq
    by_cases hqr : q = r
    · rw [hqr, Function.update_self] at hq
      exact .inl ⟨hqr, (Option.some.inj hq).symm⟩
    · rw [Function.update_of_ne hqr] at hq
      exact .inr hq
  constructor
  · intro q q' id' hq hq'
    rcases hcases q id' hq with ⟨rfl, rfl⟩ | hold <;>
      rcases hcases q' id' hq' with ⟨rfl, heq⟩ | hold'
    · rfl
    · exact absurd hold' (hnew q')
    · rw [heq] at hold
      exact absurd hold (hnew q)
    · exact h.one q q' id' hold hold'
  · intro q id' hq
    by_cases hid : id' = id
    · rw [hid, Function.update_self]
    · rw [Function.update_of_ne hid]
      rcases hcases q id' hq with ⟨-, heq⟩ | hq
      · exact absurd heq hid
      · exact h.there q id' hq

theorem DirInv.forget (h : DirInv owned present) :
    DirInv (Function.update owned r none) present := by
  have hcases : ∀ q id', Function.update owned r none q = some id' → owned q = some id' := by
    intro q id' hq
    by_cases hqr : q = r
    · simp [hqr] at hq
    · rwa [Function.update_of_ne hqr] at hq
  constructor
  · intro q q' id' hq hq'
    exact h.one q q' id' (hcases q id' hq) (hcases q' id' hq')
  · intro q id' hq
    exact h.there q id' (hcases q id' hq)

theorem DirInv.remove (h : DirInv owned present) (hr : owned r = some id) :
    DirInv (Function.update owned r none) (Function.update present id false) := by
  refine ⟨h.forget.one, fun q id' hq => ?_⟩
  by_cases hqr : q = r
  · simp [hqr] at hq
  · rw [Function.update_of_ne hqr] at hq
    have hid : id' ≠ id := by
      rintro rfl
      exact hqr (h.one q r id' hq hr)
    rw [Function.update_of_ne hid]
    exact h.there q id' hq

end

section

variable {jailed : ρ → Bool} {jails : List ρ} {r : ρ}

theorem JailInv.start (h : JailInv jailed jails) (hr : jailed r = false) :
    JailInv (Function.update jailed r true) (r :: jails) := by
  have hnew : r ∉ jails := by
    rw [h.mem, hr]
    decide
  refine ⟨List.nodup_cons.mpr ⟨hnew, h.nodup⟩, fun q => ?_⟩
  rw [List.mem_cons, h.mem]
  by_cases hq : q = r <;> simp [hq]

theorem JailInv.finish (h : JailInv jailed jails) :
    JailInv (Function.update jailed r false) (jails.erase r) := by
  refine ⟨h.nodup.erase r, fun q => ?_⟩
  rw [h.nodup.mem_erase_iff, h.mem]
  by_cases hq : q = r <;> simp [hq]

end

variable {phases : ρ → Phase} {σ σ' : Supervisor ρ} {history : List (Entry ρ capacity)} {r : ρ}
  {k : Op} {reply : Option k.Reply} {φ φ' : Phase}

omit [DecidableEq ρ] in
theorem update_same [DecidableEq ρ] {β : Type} (f : Phase → β) (hφ : phases r = φ) {b : β}
    (h : b = f φ) : Function.update (f ∘ phases) r b = f ∘ phases := by
  subst hφ
  rw [h]
  exact Function.update_eq_self r (f ∘ phases)

/-- A phase of one client and an entry of its own at the end of the history. -/
theorem Inv.concat (h : Inv phases σ history) (hφ : phases r = φ)
    (hstep : φ.Step φ' (⟨r, k, reply⟩ : Entry ρ capacity))
    (hslots : SlotInv capacity (Function.update (Phase.claims ∘ phases) r φ'.claims)
      (Function.update (Phase.waits ∘ phases) r φ'.waits)
      (Function.update (Phase.fresh ∘ phases) r φ'.fresh) σ'.semaphore)
    (hdirs : DirInv (Function.update (Phase.owned ∘ phases) r φ'.owned) σ'.present)
    (hjails : JailInv (Function.update (Phase.jails ∘ phases) r φ'.jails) σ'.jails) :
    Inv (Function.update phases r φ') σ' (history ++ [⟨r, k, reply⟩]) := by
  subst hφ
  constructor
  · simpa only [Function.comp_update] using hslots
  · simpa only [Function.comp_update] using hdirs
  · simpa only [Function.comp_update] using hjails
  · intro q
    by_cases hq : q = r
    · subst hq
      rw [Function.update_self, own_concat_self]
      exact (h.own q).concat hstep
    · rw [Function.update_of_ne hq, own_concat_of_ne (Ne.symm hq)]
      exact h.own q
  · intro p d s id hsplit hid
    rcases concat_eq_split hsplit with ⟨-, rfl, rfl⟩ | ⟨s', -, hhistory⟩
    · rw [owns, (h.own r).owned]
      exact hstep.removes id hid
    · exact h.removals p d s' id hhistory hid

theorem Inv.slots_same (h : Inv phases σ history) (hφ : phases r = φ)
    (hclaims : φ'.claims = φ.claims) (hwaits : φ'.waits = φ.waits)
    (hfresh : φ'.fresh = true → φ.fresh = true) :
    SlotInv capacity (Function.update (Phase.claims ∘ phases) r φ'.claims)
      (Function.update (Phase.waits ∘ phases) r φ'.waits)
      (Function.update (Phase.fresh ∘ phases) r φ'.fresh) σ.semaphore := by
  rw [update_same _ hφ hclaims, update_same _ hφ hwaits]
  apply h.slots.mono
  intro q
  by_cases hq : q = r
  · rw [hq, Function.update_self, Function.comp_apply, hφ]
    exact hfresh
  · rw [Function.update_of_ne hq]
    exact fun h => h

theorem Inv.dirs_same (h : Inv phases σ history) (hφ : phases r = φ) (howned : φ'.owned = φ.owned) :
    DirInv (Function.update (Phase.owned ∘ phases) r φ'.owned) σ.present := by
  rw [update_same _ hφ howned]
  exact h.dirs

theorem Inv.jails_same (h : Inv phases σ history) (hφ : phases r = φ) (hjails : φ'.jails = φ.jails) :
    JailInv (Function.update (Phase.jails ∘ phases) r φ'.jails) σ.jails := by
  rw [update_same _ hφ hjails]
  exact h.jails

/-- An operation that leaves the semaphore, the directories and the jails alone. -/
theorem Inv.quiet (h : Inv phases σ history) (hφ : phases r = φ)
    (hstep : φ.Step φ' (⟨r, k, reply⟩ : Entry ρ capacity)) (hclaims : φ'.claims = φ.claims)
    (hwaits : φ'.waits = φ.waits) (hfresh : φ'.fresh = true → φ.fresh = true)
    (howned : φ'.owned = φ.owned) (hjails : φ'.jails = φ.jails) :
    Inv (Function.update phases r φ') σ (history ++ [⟨r, k, reply⟩]) :=
  h.concat hφ hstep (h.slots_same hφ hclaims hwaits hfresh) (h.dirs_same hφ howned)
    (h.jails_same hφ hjails)

variable {choice : Choice} {limits : JailLimits} {input : Json}

theorem Inv.acquire (h : Inv phases σ history) {id : RunId} {entrypoint : Text}
    (hφ : phases r = .entering id entrypoint) {outcome : Acquisition}
    {semaphore : ExecutionSemaphore ρ}
    (hacquire : σ.semaphore.acquire capacity r = (outcome, semaphore))
    (hstep : (Phase.entering id entrypoint).Step
      ((Phase.entering id entrypoint).after limits .acquire (some outcome))
      (⟨r, .acquire, some outcome⟩ : Entry ρ capacity)) :
    Inv (Function.update phases r
        ((Phase.entering id entrypoint).after limits .acquire (some outcome)))
      { σ with semaphore } (history ++ [⟨r, .acquire, some outcome⟩]) := by
  have hclaims : (Phase.claims ∘ phases) r = false := by rw [Function.comp_apply, hφ]; rfl
  have hfresh : (Phase.fresh ∘ phases) r = true := by rw [Function.comp_apply, hφ]; rfl
  have hwaits : Function.update (Phase.waits ∘ phases) r false = Phase.waits ∘ phases :=
    update_same Phase.waits hφ rfl
  have hout : (σ.semaphore.acquire capacity r).1 = outcome := by rw [hacquire]
  have hsem : (σ.semaphore.acquire capacity r).2 = semaphore := by rw [hacquire]
  cases outcome with
  | acquired =>
    have hslots := h.slots.acquired hclaims hfresh hout
    rw [hsem, ← hwaits] at hslots
    exact h.concat hφ hstep hslots (h.dirs_same hφ rfl) (h.jails_same hφ rfl)
  | queued =>
    have hslots := h.slots.waited hclaims hfresh hout
    rw [hsem] at hslots
    exact h.concat hφ hstep hslots (h.dirs_same hφ rfl) (h.jails_same hφ rfl)
  | atCapacity =>
    have hclaims' : Function.update (Phase.claims ∘ phases) r false = Phase.claims ∘ phases :=
      update_same Phase.claims hφ rfl
    have hslots := h.slots.refused hclaims hfresh hout
    rw [hsem, ← hwaits, ← hclaims'] at hslots
    exact h.concat hφ hstep hslots (h.dirs_same hφ rfl) (h.jails_same hφ rfl)

theorem Inv.remove (h : Inv phases σ history) {id : Text} (hφ : phases r = φ)
    (hstep : φ.Step φ' (⟨r, k, reply⟩ : Entry ρ capacity)) (hclaims : φ'.claims = φ.claims)
    (hwaits : φ'.waits = φ.waits) (hfresh : φ'.fresh = true → φ.fresh = true)
    (howned : φ.owned = some id) (hnone : φ'.owned = none) (hjails : φ'.jails = φ.jails) :
    Inv (Function.update phases r φ')
      { σ with present := Function.update σ.present id false }
      (history ++ [⟨r, k, reply⟩]) := by
  refine h.concat hφ hstep (h.slots_same hφ hclaims hwaits hfresh) ?_ (h.jails_same hφ hjails)
  rw [hnone]
  apply h.dirs.remove
  rw [Function.comp_apply, hφ, howned]

theorem Inv.step (h : Inv phases σ history) (hop : (phases r).op limits input = some k)
    (hexec : exec capacity choice σ r k = some (reply, σ')) :
    Inv (Function.update phases r ((phases r).after limits k reply)) σ'
      (history ++ [⟨r, k, reply⟩]) := by
  have hstep := Phase.step_after capacity r hop reply
  generalize hφ : phases r = φ at hop hstep ⊢
  cases φ <;> cases hop
  case arrived id tool =>
    obtain ⟨-, rfl⟩ : _ ∧ σ = σ' := by simpa only [exec, Option.some.injEq, Prod.mk.injEq] using hexec
    cases reply with
    | none => exact h.quiet hφ hstep rfl rfl (fun _ => rfl) rfl rfl
    | some entrypoint =>
      simp only [Phase.after] at hstep ⊢
      split at hstep
      · rename_i haccepted
        rw [if_pos haccepted]
        exact h.quiet hφ hstep rfl rfl (fun _ => rfl) rfl rfl
      · rename_i haccepted
        rw [if_neg haccepted]
        exact h.quiet hφ hstep rfl rfl (fun _ => rfl) rfl rfl
  case entering id entrypoint =>
    cases hacquire : σ.semaphore.acquire capacity r with
    | mk outcome semaphore =>
      simp only [exec, hacquire, Option.some.injEq, Prod.mk.injEq] at hexec
      obtain ⟨rfl, rfl⟩ := hexec
      exact h.acquire hφ hacquire hstep
  case waiting id entrypoint =>
    simp only [exec] at hexec
    split at hexec
    · exact absurd hexec (by simp)
    · rename_i hqueue
      simp only [Option.some.injEq, Prod.mk.injEq] at hexec
      obtain ⟨rfl, rfl⟩ := hexec
      have hclaims : Function.update (Phase.claims ∘ phases) r true = Phase.claims ∘ phases :=
        update_same Phase.claims hφ rfl
      have hfresh : Function.update (Phase.fresh ∘ phases) r false = Phase.fresh ∘ phases :=
        update_same Phase.fresh hφ rfl
      have hgranted := h.slots.granted hqueue
      rw [← hclaims, ← hfresh] at hgranted
      exact h.concat hφ hstep hgranted (h.dirs_same hφ rfl) (h.jails_same hφ rfl)
  case holding id entrypoint =>
    simp only [exec] at hexec
    split at hexec
    · simp only [Option.some.injEq, Prod.mk.injEq] at hexec
      obtain ⟨rfl, rfl⟩ := hexec
      exact h.quiet hφ hstep rfl rfl (fun h => h) rfl rfl
    · split at hexec
      · simp only [Option.some.injEq, Prod.mk.injEq] at hexec
        obtain ⟨rfl, rfl⟩ := hexec
        exact h.quiet hφ hstep rfl rfl (fun h => h) rfl rfl
      · rename_i hfree
        simp only [Option.some.injEq, Prod.mk.injEq] at hexec
        obtain ⟨rfl, rfl⟩ := hexec
        refine h.concat hφ hstep (h.slots_same hφ rfl rfl fun h => h) ?_ (h.jails_same hφ rfl)
        exact h.dirs.create (by simpa using hfree)
  case writing id entrypoint =>
    obtain ⟨-, rfl⟩ : _ ∧ σ = σ' := by simpa only [exec, Option.some.injEq, Prod.mk.injEq] using hexec
    cases reply <;> exact h.quiet hφ hstep rfl rfl (fun h => h) rfl rfl
  case starting id entrypoint =>
    simp only [exec] at hexec
    split at hexec
    · simp only [Option.some.injEq, Prod.mk.injEq] at hexec
      obtain ⟨rfl, rfl⟩ := hexec
      exact h.quiet hφ hstep rfl rfl (fun h => h) rfl rfl
    · simp only [Option.some.injEq, Prod.mk.injEq] at hexec
      obtain ⟨rfl, rfl⟩ := hexec
      refine h.concat hφ hstep (h.slots_same hφ rfl rfl fun h => h) (h.dirs_same hφ rfl) ?_
      apply h.jails.start
      rw [Function.comp_apply, hφ]
      rfl
  case jailed id =>
    simp only [exec, Option.some.injEq, Prod.mk.injEq] at hexec
    obtain ⟨-, rfl⟩ := hexec
    cases reply <;>
      exact h.concat hφ hstep (h.slots_same hφ rfl rfl fun h => h) (h.dirs_same hφ rfl)
        h.jails.finish
  case inspecting id result =>
    obtain ⟨-, rfl⟩ : _ ∧ σ = σ' := by simpa only [exec, Option.some.injEq, Prod.mk.injEq] using hexec
    cases reply with
    | none => exact h.quiet hφ hstep rfl rfl (fun h => h) rfl rfl
    | some kind => cases kind <;> exact h.quiet hφ hstep rfl rfl (fun h => h) rfl rfl
  case unlinking id result =>
    simp only [exec] at hexec
    split at hexec
    · simp only [Option.some.injEq, Prod.mk.injEq] at hexec
      obtain ⟨rfl, rfl⟩ := hexec
      exact h.quiet hφ hstep rfl rfl (fun h => h) rfl rfl
    · simp only [Option.some.injEq, Prod.mk.injEq] at hexec
      obtain ⟨rfl, rfl⟩ := hexec
      exact h.remove hφ hstep rfl rfl (fun h => h) rfl rfl rfl
  case locating id result =>
    obtain ⟨-, rfl⟩ : _ ∧ σ = σ' := by simpa only [exec, Option.some.injEq, Prod.mk.injEq] using hexec
    cases reply with
    | none => exact h.quiet hφ hstep rfl rfl (fun h => h) rfl rfl
    | some underRoot => cases underRoot <;> exact h.quiet hφ hstep rfl rfl (fun h => h) rfl rfl
  case removing id result =>
    simp only [exec] at hexec
    split at hexec
    · simp only [Option.some.injEq, Prod.mk.injEq] at hexec
      obtain ⟨rfl, rfl⟩ := hexec
      exact h.quiet hφ hstep rfl rfl (fun h => h) rfl rfl
    · simp only [Option.some.injEq, Prod.mk.injEq] at hexec
      obtain ⟨rfl, rfl⟩ := hexec
      exact h.remove hφ hstep rfl rfl (fun h => h) rfl rfl rfl
  case releasing kept result =>
    simp only [exec, Option.some.injEq, Prod.mk.injEq] at hexec
    obtain ⟨rfl, rfl⟩ := hexec
    have hwaits : Function.update (Phase.waits ∘ phases) r false = Phase.waits ∘ phases :=
      update_same Phase.waits hφ rfl
    have hfresh : Function.update (Phase.fresh ∘ phases) r false = Phase.fresh ∘ phases :=
      update_same Phase.fresh hφ rfl
    have hreleased := h.slots.release (r := r) (by rw [Function.comp_apply, hφ]; rfl)
      (by rw [Function.comp_apply, hφ]; rfl) (by rw [Function.comp_apply, hφ]; rfl)
    rw [← hwaits, ← hfresh] at hreleased
    exact h.concat hφ hstep hreleased h.dirs.forget (h.jails_same hφ rfl)

variable {hashToken : Text → String} {deps : ServerDeps} {requests : ρ → ExecuteRequest}

theorem preserves_inv : Machine.Preserves (M := machine ρ capacity)
    (fun r φ => code (requests r) φ) Inv := by
  intro phases σ history r k next choice reply σ' hinv hcall hexec
  cases hop : (phases r).op (requests r).limits (requests r).input with
  | none =>
    cases hφ : phases r with
    | finished acquired result =>
      rw [hφ] at hcall
      cases result <;> cases hcall
    | _ =>
      rw [hφ] at hop
      cases hop
  | some k' =>
    have hcode := code_op (requests r) (phases r) hop
    cases hcode.symm.trans hcall
    exact ⟨_, rfl, hinv.step hop hexec⟩

theorem inv_starts {phases : ρ → Phase} (h : ∀ r, (phases r).starts = true)
    (present : Text → Bool) :
    Inv phases (boot present) ([] : List (Entry ρ capacity)) := by
  have hstarts : ∀ r, (phases r).claims = false ∧ (phases r).owned = none ∧
      (phases r).jails = false ∧ (phases r).acquired = 0 ∧ (phases r).released = 0 ∧
      (phases r).settled = true := by
    intro r
    have hr := h r
    cases hφ : phases r with
    | arrived id tool => simp
    | finished acquired result =>
      rw [hφ] at hr
      cases acquired with
      | false => simp
      | true => simp [Phase.starts] at hr
    | _ =>
      rw [hφ] at hr
      simp [Phase.starts] at hr
  have howned : ∀ r id, (Phase.owned ∘ phases) r ≠ some id := by
    intro r id hr
    rw [Function.comp_apply, (hstarts r).2.1] at hr
    exact nomatch hr
  constructor
  · refine ⟨⟨[], ExecutionSemaphore.slots_new, fun r => ?_⟩, fun r hr => absurd hr List.not_mem_nil,
      fun _ _ => rfl⟩
    rw [Function.comp_apply, (hstarts r).1]
    exact ⟨fun hr => absurd hr List.not_mem_nil, fun hr => absurd hr (by decide)⟩
  · exact ⟨fun r _ id hr _ => absurd hr (howned r id), fun r id hr => absurd hr (howned r id)⟩
  · refine ⟨List.nodup_nil, fun r => ?_⟩
    rw [Function.comp_apply, (hstarts r).2.2.1]
    exact ⟨fun hr => absurd hr List.not_mem_nil, fun hr => absurd hr (by decide)⟩
  · intro r
    obtain ⟨-, howned, -, hacquired, hreleased, hsettled⟩ := hstarts r
    exact ⟨hacquired.symm, hreleased.symm, howned.symm, fun _ e he => absurd he List.not_mem_nil,
      hsettled, fun _ => h r⟩
  · intro p e s id hsplit
    exact absurd hsplit (by simp)

end

section

variable {ρ : Type} [DecidableEq ρ] (hashToken : Text → String) (deps : ServerDeps)
  (requests : ρ → ExecuteRequest) (present : Text → Bool)

/-- The supervisor after a schedule of its requests, each of which runs `execute`. -/
def serve (schedule : List (ρ × Choice)) :
    (machine ρ deps.concurrency).World Thrown Answer :=
  Machine.run (Machine.begin (fun r => execute hashToken deps (requests r)) (boot present)) schedule

end

def isFinished (p : Handler Answer) : Bool :=
  match p with
  | .call _ _ => false
  | _ => true

/-- The request has been answered with this status. -/
def answeredWith (status : Nat) (p : Handler Answer) : Prop := ∃ a, p = .ret a ∧ a.code = status

/-- Slots and workspaces of a supervisor. -/
structure Orderly {ρ : Type} [DecidableEq ρ] {capacity : Capacity}
    (w : (machine ρ capacity).World Thrown Answer) : Prop where
  jails : w.state.jails.Nodup ∧ w.state.jails.length ≤ capacity.maxConcurrent
  waiting : w.state.semaphore.queue.length ≤ capacity.maxQueueDepth
  /-- A slot is released once, by the end of the request that got it. -/
  released : ∀ r, (own w.history r).countP Entry.releases ≤ (own w.history r).countP Entry.acquires ∧
    (own w.history r).countP Entry.acquires ≤ 1 ∧ (isFinished (w.procs r) = true →
      (own w.history r).countP Entry.releases = (own w.history r).countP Entry.acquires)
  one_owner : ∀ r r' id, owns w.history r = some id → owns w.history r' = some id → r = r'
  /-- An owned directory is there. -/
  kept : ∀ r id, owns w.history r = some id → w.state.present id = true
  /-- What removes a directory is an operation of its owner. -/
  removed_by_owner : ∀ p e s id, w.history = p ++ e :: s → Entry.removes e = some id →
    owns p e.client = some id
  /-- A request that is answered 409 does nothing to a directory, `mkdir` on it apart. -/
  in_use : ∀ r, answeredWith 409 (w.procs r) → ∀ e ∈ own w.history r, Entry.touches e ≠ none →
    Entry.refused e = true
  /-- Requests that have finished, or have not been looked at, leave nothing behind. -/
  quiescent : (∀ r, isFinished (w.procs r) = true ∨ own w.history r = []) →
    w.state.semaphore.active = 0 ∧ w.state.semaphore.queue = [] ∧ w.state.jails = []

section

variable {ρ : Type} [DecidableEq ρ] {capacity : Capacity}

theorem Phase.holds_of_jails {φ : Phase} (h : φ.jails = true) :
    φ.claims = true ∧ φ.waits = false := by
  cases φ <;> simp at h ⊢

theorem Phase.released_le (φ : Phase) : φ.released ≤ φ.acquired ∧ φ.acquired ≤ 1 := by
  cases φ with
  | finished acquired result => cases acquired <;> simp
  | _ => simp

theorem Phase.claims_of_starts {φ : Phase} (h : φ.starts = true) : φ.claims = false := by
  cases φ <;> simp [Phase.starts] at h ⊢

theorem finished_of_isFinished {req : ExecuteRequest} {φ : Phase}
    (h : isFinished (code req φ) = true) : ∃ acquired result, φ = .finished acquired result := by
  cases hop : φ.op req.limits req.input with
  | none =>
    cases φ with
    | finished acquired result => exact ⟨acquired, result, rfl⟩
    | _ => cases hop
  | some k =>
    rw [code_op req φ hop] at h
    exact absurd h (by simp [isFinished])

theorem orderly_of_describes {requests : ρ → ExecuteRequest}
    {w : (machine ρ capacity).World Thrown Answer}
    (h : Machine.Describes (fun r φ => code (requests r) φ) Inv w) : Orderly w := by
  obtain ⟨phases, hprocs, hinv⟩ := h
  obtain ⟨holders, hslots, hmem⟩ := hinv.slots.holders
  have howns : ∀ r, owns w.history r = (phases r).owned := fun r => (hinv.own r).owned
  constructor
  · refine ⟨hinv.jails.nodup, ?_⟩
    -- every jail has a slot
    have hsub : w.state.jails ⊆ holders := by
      intro r hr
      have hjailed := (hinv.jails.mem r).mp hr
      have hclaims : (Phase.claims ∘ phases) r = true ∧ (Phase.waits ∘ phases) r = false :=
        Phase.holds_of_jails hjailed
      refine (List.mem_append.mp ((hmem r).mpr hclaims.1)).resolve_right fun hqueue => ?_
      rw [hinv.slots.queued r hqueue] at hclaims
      exact absurd hclaims.2 (by decide)
    exact (hinv.jails.nodup.subperm hsub).length_le.trans hslots.length_le
  · exact hslots.depth
  · intro r
    have hcounts := (phases r).released_le
    rw [(hinv.own r).released, (hinv.own r).acquired]
    refine ⟨hcounts.1, hcounts.2, fun hfinished => ?_⟩
    rw [hprocs] at hfinished
    obtain ⟨acquired, result, hφ⟩ := finished_of_isFinished hfinished
    rw [hφ]
    cases acquired <;> rfl
  · intro r r' id hr hr'
    rw [howns] at hr hr'
    exact hinv.dirs.one r r' id hr hr'
  · intro r id hr
    rw [howns] at hr
    exact hinv.dirs.there r id hr
  · exact hinv.removals
  · rintro r ⟨a, hret, hcode⟩
    apply (hinv.own r).apart
    have hanswer : code (requests r) (phases r) = .ret a := by
      rw [← hret, hprocs]
    have hfinished : isFinished (code (requests r) (phases r)) = true := by
      rw [hanswer]
      rfl
    obtain ⟨acquired, result, hφ⟩ := finished_of_isFinished hfinished
    rw [hφ] at hanswer ⊢
    cases result with
    | error e => cases hanswer
    | ok a' =>
      cases hanswer
      simp [hcode]
  · intro hall
    have hidle : ∀ r, (phases r).claims = false := by
      intro r
      rcases hall r with hfinished | hnil
      · rw [hprocs] at hfinished
        obtain ⟨acquired, result, hφ⟩ := finished_of_isFinished hfinished
        rw [hφ]
        rfl
      · exact Phase.claims_of_starts ((hinv.own r).begun hnil)
    have hnone : holders ++ w.state.semaphore.queue = [] := by
      apply List.eq_nil_iff_forall_not_mem.mpr
      intro r hr
      rw [hmem, Function.comp_apply, hidle] at hr
      exact absurd hr (by decide)
    rw [List.append_eq_nil_iff] at hnone
    refine ⟨by rw [hslots.active, hnone.1]; rfl, hnone.2, ?_⟩
    apply List.eq_nil_iff_forall_not_mem.mpr
    intro r hr
    have hclaims := (Phase.holds_of_jails ((hinv.jails.mem r).mp hr)).1
    rw [hidle] at hclaims
    exact absurd hclaims (by decide)

/-- Every schedule of any number of requests keeps the supervisor orderly. -/
theorem execute_orderly (hashToken : Text → String) (deps : ServerDeps)
    (requests : ρ → ExecuteRequest) (present : Text → Bool) (schedule : List (ρ × Choice)) :
    Orderly (serve hashToken deps requests present schedule) := by
  choose phases hstarts hcode using fun r => execute_starts hashToken deps (requests r)
  refine @orderly_of_describes _ _ _ requests _ ?_
  apply Machine.run_phases preserves_inv
  exact ⟨phases, funext hcode, inv_starts hstarts present⟩

end

/-- A request for the run id of the one before it, while that one's jail runs. -/
example :
    let request : ExecuteRequest :=
      { bearer := some (ofString "t"), runId := some (ofString "0d1a6b2e-9d0a-4d3a-8f0a-1a2b3c4d5e6f")
        tool := some (ofString "echo"), input := .obj []
        limits := ⟨some (.ofInt 1000), some (.ofInt 1), some (.ofInt 1)⟩ }
    let deps : ServerDeps :=
      { token := ofString "t", canaryOk := true, assertions := .arr [], concurrency := ⟨4, 8, by decide⟩ }
    let choice : Choice :=
      { fails := false, kind := .other, underRoot := true, path := [], outcome := .toolError [] 0 }
    let w := serve (fun _ => "") deps (fun _ : Bool => request) (fun _ => false)
      (([true, true, true, true, true, false, false, false, false]).map fun r => (r, choice))
    (match w.procs false with | .ret a => a.code | _ => 0) = 409 ∧ w.state.jails = [true] := by
  decide +kernel

end OpenRupiv.Sandbox
