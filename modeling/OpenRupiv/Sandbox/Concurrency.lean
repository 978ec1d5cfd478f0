import Mathlib.Data.List.Basic
import Mathlib.Data.List.Nodup
import Mathlib.Logic.Function.Basic

/-!
# The execution semaphore

`packages/sandbox/src/concurrency.ts`.  A waiter and a release function stand for the request they
were made for.
-/

namespace OpenRupiv.Sandbox

/-- The arguments of the constructor, which throws unless `maxConcurrent` is positive. -/
structure Capacity where
  maxConcurrent : Nat
  maxQueueDepth : Nat
  positive : 1 ≤ maxConcurrent

/-- `ExecutionSemaphore`, and the `released` flags of the release functions it made. -/
structure ExecutionSemaphore (ρ : Type) where
  active : Nat
  queue : List ρ
  released : ρ → Bool

/-- What becomes of the promise of `acquire`: resolved, pending, or rejected. -/
inductive Acquisition where
  | acquired
  | queued
  | atCapacity
  deriving DecidableEq

namespace ExecutionSemaphore

variable {ρ : Type}

def new : ExecutionSemaphore ρ where
  active := 0
  queue := []
  released := fun _ => false

def acquire (capacity : Capacity) (s : ExecutionSemaphore ρ) (r : ρ) :
    Acquisition × ExecutionSemaphore ρ :=
  if s.active < capacity.maxConcurrent then (.acquired, { s with active := s.active + 1 })
  else if s.queue.length < capacity.maxQueueDepth then (.queued, { s with queue := s.queue ++ [r] })
  else (.atCapacity, s)

variable [DecidableEq ρ]

/-- The function that `makeRelease` returned for `r`: a second call does nothing, and the slot goes
to the next waiter if there is one. -/
def release (s : ExecutionSemaphore ρ) (r : ρ) : ExecutionSemaphore ρ :=
  if s.released r then s
  else
    let released := Function.update s.released r true
    match s.queue with
    | _ :: queue => { s with queue, released }
    | [] => { s with active := s.active - 1, released }

/-- `holders` have a slot each, and nobody else has one. -/
structure Slots (capacity : Capacity) (s : ExecutionSemaphore ρ) (holders : List ρ) : Prop where
  nodup : (holders ++ s.queue).Nodup
  active : s.active = holders.length
  bounded : s.active ≤ capacity.maxConcurrent
  depth : s.queue.length ≤ capacity.maxQueueDepth
  pending : ∀ r ∈ holders ++ s.queue, s.released r = false

variable {capacity : Capacity} {s : ExecutionSemaphore ρ} {holders : List ρ} {r : ρ}

omit [DecidableEq ρ] in
theorem slots_new : Slots capacity (new : ExecutionSemaphore ρ) [] where
  nodup := List.nodup_nil
  active := rfl
  bounded := Nat.zero_le _
  depth := Nat.zero_le _
  pending := by simp [new]

omit [DecidableEq ρ] in
/-- A request that has no slot and does not wait gets one, waits, or is turned away. -/
theorem Slots.acquire (h : Slots capacity s holders) (hnew : r ∉ holders ++ s.queue)
    (hfresh : s.released r = false) :
    (s.acquire capacity r).2.released = s.released ∧
    match (s.acquire capacity r).1 with
    | .acquired => (s.acquire capacity r).2.queue = s.queue ∧
        Slots capacity (s.acquire capacity r).2 (r :: holders)
    | .queued => (s.acquire capacity r).2.queue = s.queue ++ [r] ∧
        Slots capacity (s.acquire capacity r).2 holders
    | .atCapacity => (s.acquire capacity r).2 = s := by
  unfold ExecutionSemaphore.acquire
  split
  · rename_i hfree
    refine ⟨rfl, rfl, ?_⟩
    constructor
    · exact List.nodup_cons.mpr ⟨hnew, h.nodup⟩
    · rw [List.length_cons, ← h.active]
    · exact hfree
    · exact h.depth
    · intro q hq
      rcases List.mem_cons.mp hq with rfl | hq
      · exact hfresh
      · exact h.pending q hq
  · split
    · rename_i hroom
      refine ⟨rfl, rfl, ?_⟩
      constructor
      · rw [← List.append_assoc, List.nodup_append]
        refine ⟨h.nodup, List.nodup_singleton r, ?_⟩
        rintro q hq _ hr rfl
        rw [List.mem_singleton.mp hr] at hq
        exact hnew hq
      · exact h.active
      · exact h.bounded
      · rw [List.length_append, List.length_singleton]
        exact hroom
      · intro q hq
        rw [← List.append_assoc] at hq
        rcases List.mem_append.mp hq with hq | hq
        · exact h.pending q hq
        · rw [List.mem_singleton.mp hq]
          exact hfresh
    · exact ⟨rfl, rfl⟩

omit [DecidableEq ρ] in
theorem Slots.length_le (h : Slots capacity s holders) : holders.length ≤ capacity.maxConcurrent := by
  rw [← h.active]
  exact h.bounded

/-- The slot of `r` goes to the first waiter, or is free. -/
theorem Slots.release (h : Slots capacity s holders) (hr : r ∈ holders) :
    (s.release r).queue = s.queue.tail ∧
      Slots capacity (s.release r) (s.queue.head?.toList ++ holders.erase r) := by
  have hpending : s.released r = false := h.pending r (List.mem_append_left _ hr)
  have hdisjoint := List.nodup_append.mp h.nodup
  have hlength : (holders.erase r).length + 1 = holders.length := List.length_erase_add_one hr
  have hleft : r ∉ s.queue ++ holders.erase r := by
    intro hmem
    rcases List.mem_append.mp hmem with hmem | hmem
    · exact hdisjoint.2.2 r hr r hmem rfl
    · exact hdisjoint.1.not_mem_erase hmem
  have hunreleased : ∀ q ∈ s.queue ++ holders.erase r,
      Function.update s.released r true q = false := by
    intro q hq
    have hne : q ≠ r := by
      rintro rfl
      exact hleft hq
    rw [Function.update_of_ne hne]
    apply h.pending
    rcases List.mem_append.mp hq with hq | hq
    · exact List.mem_append_right _ hq
    · exact List.mem_append_left _ (List.mem_of_mem_erase hq)
  have hnodup : (s.queue ++ holders.erase r).Nodup := by
    apply List.nodup_append_comm.mp
    exact h.nodup.sublist ((List.erase_sublist).append_right _)
  have hdepth := h.depth
  have hactive := h.active
  have hbounded := h.bounded
  unfold ExecutionSemaphore.release
  rw [hpending, if_neg (by decide)]
  cases hqueue : s.queue with
  | nil =>
    rw [hqueue] at hunreleased hnodup
    refine ⟨rfl, ?_⟩
    constructor
    · simpa [hqueue] using hnodup
    · simp
      omega
    · simp
      omega
    · simp
    · simpa [hqueue] using hunreleased
  | cons next queue =>
    rw [hqueue] at hunreleased hnodup hdepth
    have hperm : (next :: queue ++ holders.erase r).Perm (next :: holders.erase r ++ queue) :=
      List.Perm.cons next List.perm_append_comm
    refine ⟨rfl, ?_⟩
    constructor
    · simpa using hperm.nodup_iff.mp hnodup
    · simp
      omega
    · exact hbounded
    · simp at hdepth ⊢
      omega
    · intro q hq
      exact hunreleased q (hperm.mem_iff.mpr (by simpa using hq))

end ExecutionSemaphore

end OpenRupiv.Sandbox
