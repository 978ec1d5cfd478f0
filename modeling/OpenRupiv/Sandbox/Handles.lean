import OpenRupiv.Sandbox.Concurrency
import Mathlib.Data.List.Induction
import Mathlib.Data.List.Perm.Basic
import Mathlib.Tactic.Common

/-!
# Handles of the execution semaphore

The callers of `acquire` and of the release functions, in any order.  The calls of `acquire` are
numbered as they arrive; the handle that a call is granted has its number.
-/

namespace OpenRupiv.Sandbox

namespace ExecutionSemaphore

variable {ρ : Type}

/-- The waiter whose promise the release function of `r` resolves. -/
def resolves (s : ExecutionSemaphore ρ) (r : ρ) : Option ρ :=
  if s.released r then none else s.queue.head?

variable {capacity : Capacity} {s : ExecutionSemaphore ρ} {holders holders' : List ρ}

theorem Slots.perm (h : Slots capacity s holders) (hperm : holders.Perm holders') :
    Slots capacity s holders' where
  nodup := (hperm.append_right _).nodup_iff.mp h.nodup
  active := by rw [h.active, hperm.length_eq]
  bounded := h.bounded
  depth := h.depth
  pending := by
    intro r hr
    exact h.pending r ((hperm.append_right _).mem_iff.mpr hr)

theorem acquire_eq_atCapacity_iff {r : ρ} (h : Slots capacity s holders) :
    (s.acquire capacity r).1 = .atCapacity ↔
      s.active = capacity.maxConcurrent ∧ s.queue.length = capacity.maxQueueDepth := by
  have hbounded := h.bounded
  have hdepth := h.depth
  unfold acquire
  split
  · simp
    omega
  · split
    · simp
      omega
    · simp
      omega

theorem acquire_active {r : ρ} (hbusy : ¬s.active < capacity.maxConcurrent) :
    (s.acquire capacity r).2.active = s.active := by
  rw [acquire, if_neg hbusy]
  split <;> rfl

end ExecutionSemaphore

/-- A call of `acquire`, or of the release function of a handle. -/
inductive Call where
  | acquire
  | release (handle : Nat)

/-- A semaphore, the calls of `acquire` so far, the handles granted and the calls refused, in that
order, and the handles whose release functions were called. -/
structure Usage where
  semaphore : ExecutionSemaphore Nat
  arrived : Nat
  granted : List Nat
  refused : List Nat
  closed : List Nat

namespace Usage

open ExecutionSemaphore

def new : Usage where
  semaphore := .new
  arrived := 0
  granted := []
  refused := []
  closed := []

/-- Nobody has the release function of a handle that was not granted. -/
def call (capacity : Capacity) (u : Usage) : Call → Usage
  | .acquire =>
      let answer := u.semaphore.acquire capacity u.arrived
      { u with
        semaphore := answer.2
        arrived := u.arrived + 1
        granted := if answer.1 = .acquired then u.granted ++ [u.arrived] else u.granted
        refused := if answer.1 = .atCapacity then u.refused ++ [u.arrived] else u.refused }
  | .release handle =>
      if handle ∈ u.granted then
        { u with
          semaphore := u.semaphore.release handle
          granted := u.granted ++ (u.semaphore.resolves handle).toList
          closed := u.closed ++ [handle] }
      else u

def after (capacity : Capacity) (calls : List Call) : Usage := calls.foldl (call capacity) new

/-- The handles granted and not yet released. -/
def outstanding (u : Usage) : List Nat := u.granted.filter (· ∉ u.closed)

/-- The calls of `acquire` that were not refused, in the order they arrived. -/
def accepted (u : Usage) : List Nat := (List.range u.arrived).filter (· ∉ u.refused)

structure Inv (capacity : Capacity) (u : Usage) : Prop where
  slots : Slots capacity u.semaphore u.outstanding
  full : u.semaphore.queue ≠ [] → u.semaphore.active = capacity.maxConcurrent
  /-- The handles are granted in the order of the calls, and the other calls wait in that order. -/
  order : u.accepted = u.granted ++ u.semaphore.queue
  refused : ∀ n ∈ u.refused, n < u.arrived
  closed : ∀ n ∈ u.closed, n ∈ u.granted
  released : ∀ n, u.semaphore.released n = true ↔ n ∈ u.closed

variable {capacity : Capacity} {u : Usage}

theorem inv_new : Inv capacity new where
  slots := slots_new
  full := fun h => absurd rfl h
  order := rfl
  refused := by simp [new]
  closed := by simp [new]
  released := by simp [new, ExecutionSemaphore.new]

theorem Inv.lt_arrived (h : Inv capacity u) {n : Nat} (hn : n ∈ u.granted ++ u.semaphore.queue) :
    n < u.arrived := by
  rw [← h.order] at hn
  exact List.mem_range.mp (List.mem_of_mem_filter hn)

theorem Inv.nodup (h : Inv capacity u) : (u.granted ++ u.semaphore.queue).Nodup := by
  rw [← h.order]
  exact List.nodup_range.filter _

theorem Inv.fresh (h : Inv capacity u) : u.arrived ∉ u.closed := by
  intro hmem
  exact Nat.lt_irrefl _ (h.lt_arrived (List.mem_append_left _ (h.closed _ hmem)))

theorem Inv.accepted_concat (h : Inv capacity u) :
    (List.range (u.arrived + 1)).filter (· ∉ u.refused) = u.accepted ++ [u.arrived] := by
  have hnew : u.arrived ∉ u.refused := fun hmem => Nat.lt_irrefl _ (h.refused _ hmem)
  rw [List.range_succ, List.filter_append, accepted]
  simp [hnew]

theorem accepted_refused (u : Usage) :
    (List.range (u.arrived + 1)).filter (· ∉ u.refused ++ [u.arrived]) = u.accepted := by
  rw [List.range_succ, List.filter_append, accepted]
  have hlast : [u.arrived].filter (· ∉ u.refused ++ [u.arrived]) = [] := by simp
  rw [hlast, List.append_nil]
  apply List.filter_congr
  intro n hn
  have hne : n ≠ u.arrived := Nat.ne_of_lt (List.mem_range.mp hn)
  simp [hne]

theorem Inv.acquire (h : Inv capacity u) : Inv capacity (u.call capacity .acquire) := by
  have hnew : u.arrived ∉ u.granted ++ u.semaphore.queue :=
    fun hmem => Nat.lt_irrefl _ (h.lt_arrived hmem)
  have hflag : u.semaphore.released u.arrived = false := by
    rw [Bool.eq_false_iff]
    exact fun hr => h.fresh ((h.released _).mp hr)
  have hwaiting : u.arrived ∉ u.outstanding ++ u.semaphore.queue := by
    intro hmem
    apply hnew
    rcases List.mem_append.mp hmem with hmem | hmem
    · exact List.mem_append_left _ (List.mem_of_mem_filter hmem)
    · exact List.mem_append_right _ hmem
  obtain ⟨hreleased, hslots⟩ := h.slots.acquire hwaiting hflag
  have hbound : ∀ n ∈ u.refused, n < u.arrived + 1 := fun n hn => Nat.lt_succ_of_lt (h.refused n hn)
  cases hanswer : (u.semaphore.acquire capacity u.arrived).1 with
  | acquired =>
    rw [hanswer] at hslots
    have hfree : u.semaphore.active < capacity.maxConcurrent := by
      unfold ExecutionSemaphore.acquire at hanswer
      split at hanswer
      · assumption
      · split at hanswer <;> simp at hanswer
    -- with a slot free nobody waits
    have hempty : u.semaphore.queue = [] := by
      by_contra hne
      exact Nat.ne_of_lt hfree (h.full hne)
    have hout : (u.granted ++ [u.arrived]).filter (· ∉ u.closed) =
        u.outstanding ++ [u.arrived] := by
      rw [List.filter_append, outstanding]
      simp [h.fresh]
    constructor
    · simp only [call, hanswer, outstanding, if_true]
      rw [hout]
      exact hslots.2.perm (List.perm_append_singleton _ _).symm
    · simp only [call, hanswer, hslots.1, hempty]
      exact fun hne => absurd rfl hne
    · simp only [call, hanswer, hslots.1, hempty, accepted, if_true]
      rw [if_neg (by simp), h.accepted_concat, h.order, hempty, List.append_nil, List.append_nil]
    · simpa [call, hanswer] using hbound
    · simp only [call, hanswer, if_true]
      exact fun n hn => List.mem_append_left _ (h.closed n hn)
    · simpa only [call, hreleased] using h.released
  | queued =>
    rw [hanswer] at hslots
    have hbusy : ¬u.semaphore.active < capacity.maxConcurrent := by
      intro hfree
      rw [ExecutionSemaphore.acquire, if_pos hfree] at hanswer
      simp at hanswer
    have hactive : (u.semaphore.acquire capacity u.arrived).2.active = capacity.maxConcurrent := by
      rw [acquire_active hbusy]
      exact Nat.le_antisymm h.slots.bounded (Nat.le_of_not_lt hbusy)
    constructor
    · simpa only [call, hanswer, outstanding, reduceCtorEq, if_false] using hslots.2
    · simp only [call, hactive]
      exact fun _ => trivial
    · simp only [call, hanswer, hslots.1, accepted, reduceCtorEq, if_false]
      rw [h.accepted_concat, h.order, List.append_assoc]
    · simpa [call, hanswer] using hbound
    · simpa [call, hanswer] using h.closed
    · simpa only [call, hreleased] using h.released
  | atCapacity =>
    rw [hanswer] at hslots
    dsimp only at hslots
    constructor
    · simpa only [call, hanswer, hslots, outstanding, reduceCtorEq, if_false] using h.slots
    · simpa only [call, hslots] using h.full
    · simp only [call, hanswer, hslots, accepted, reduceCtorEq, if_false, if_true]
      rw [accepted_refused, h.order]
    · simp only [call, hanswer, if_true]
      intro n hn
      rcases List.mem_append.mp hn with hn | hn
      · exact hbound n hn
      · rw [List.mem_singleton.mp hn]
        exact Nat.lt_succ_self _
    · simpa [call, hanswer] using h.closed
    · simpa only [call, hslots] using h.released

/-- The release function of an outstanding handle passes its slot on; any other one does nothing. -/
theorem Inv.release (h : Inv capacity u) (handle : Nat) :
    Inv capacity (u.call capacity (.release handle)) := by
  rw [call]
  by_cases hgranted : handle ∈ u.granted
  · rw [if_pos hgranted]
    by_cases hclosed : handle ∈ u.closed
    · -- the function was called before
      have hflag : u.semaphore.released handle = true := (h.released handle).mpr hclosed
      have hsame : u.semaphore.release handle = u.semaphore := by
        rw [ExecutionSemaphore.release, if_pos hflag]
      have hnobody : u.semaphore.resolves handle = none := by
        rw [resolves, if_pos hflag]
      have hmem : ∀ n, n ∈ u.closed ++ [handle] ↔ n ∈ u.closed := by
        intro n
        rw [List.mem_append, List.mem_singleton]
        exact ⟨fun hn => hn.elim id fun heq => heq ▸ hclosed, .inl⟩
      rw [hsame, hnobody, Option.toList_none, List.append_nil]
      constructor
      · simpa only [outstanding, hmem] using h.slots
      · exact h.full
      · exact h.order
      · exact h.refused
      · simpa only [hmem] using h.closed
      · simpa only [hmem] using h.released
    · have hflag : u.semaphore.released handle = false := by
        rw [Bool.eq_false_iff]
        exact fun hr => hclosed ((h.released _).mp hr)
      have hout : handle ∈ u.outstanding := by
        rw [outstanding, List.mem_filter]
        exact ⟨hgranted, by simpa using hclosed⟩
      have hnext : u.semaphore.resolves handle = u.semaphore.queue.head? := by
        rw [resolves, hflag, if_neg (by decide)]
      obtain ⟨hqueue, hslots⟩ := h.slots.release hout
      have hdistinct := List.nodup_append.mp h.nodup
      -- nobody has called the release function of the next handle
      have hnew : ∀ n ∈ u.semaphore.queue, n ∉ u.closed ++ [handle] := by
        intro n hn hmem
        have hold : n ∈ u.granted := by
          rcases List.mem_append.mp hmem with hmem | hmem
          · exact h.closed n hmem
          · rw [List.mem_singleton.mp hmem]
            exact hgranted
        exact hdistinct.2.2 n hold n hn rfl
      have hleft : (u.granted ++ u.semaphore.queue.head?.toList).filter (· ∉ u.closed ++ [handle]) =
          u.outstanding.erase handle ++ u.semaphore.queue.head?.toList := by
        rw [List.filter_append]
        congr 1
        · rw [outstanding, (hdistinct.1.filter _).erase_eq_filter, List.filter_filter]
          apply List.filter_congr
          intro n _
          by_cases hn : n = handle <;> simp [hn]
        · apply List.filter_eq_self.mpr
          intro n hn
          simpa using hnew n (List.mem_of_mem_head? (by simpa using hn))
      rw [hnext]
      constructor
      · rw [outstanding, hleft]
        exact hslots.perm List.perm_append_comm
      · intro hne
        have hne' : u.semaphore.queue ≠ [] := by
          intro hnil
          rw [hqueue, hnil] at hne
          exact hne rfl
        rw [← h.full hne', ExecutionSemaphore.release, hflag, if_neg (by decide)]
        cases hq : u.semaphore.queue with
        | nil => exact absurd hq hne'
        | cons => rfl
      · rw [hqueue, List.append_assoc]
        refine h.order.trans ?_
        cases u.semaphore.queue <;> rfl
      · exact h.refused
      · intro n hn
        apply List.mem_append_left
        rcases List.mem_append.mp hn with hn | hn
        · exact h.closed n hn
        · rw [List.mem_singleton.mp hn]
          exact hgranted
      · intro n
        have hupdate : (u.semaphore.release handle).released =
            Function.update u.semaphore.released handle true := by
          rw [ExecutionSemaphore.release, hflag, if_neg (by decide)]
          cases u.semaphore.queue <;> rfl
        rw [hupdate, List.mem_append, List.mem_singleton, ← h.released n]
        by_cases hn : n = handle
        · simp [hn]
        · simp [hn]
  · rw [if_neg hgranted]
    exact h

theorem inv_after (capacity : Capacity) (calls : List Call) :
    Inv capacity (after capacity calls) := by
  induction calls using List.reverseRecOn with
  | nil => exact inv_new
  | append_singleton calls c ih =>
    rw [after, List.foldl_append, List.foldl_cons, List.foldl_nil]
    cases c with
    | acquire => exact ih.acquire
    | release handle => exact ih.release handle

end Usage

open Usage in
/-- After any calls: at most `maxConcurrent` slots are taken, one for each outstanding handle; calls
wait, at most `maxQueueDepth`, only when no slot is free; the calls accepted so far are those
granted, in the order of their arrival, and then those that wait.  The next call is refused exactly
when no slot is free and the queue is full, and releasing an outstanding handle grants the oldest
waiter. -/
theorem semaphore_keeps_slots (capacity : Capacity) (calls : List Call) :
    let u := after capacity calls
    u.semaphore.active ≤ capacity.maxConcurrent ∧
    u.semaphore.queue.length ≤ capacity.maxQueueDepth ∧
    (u.semaphore.queue ≠ [] → u.semaphore.active = capacity.maxConcurrent) ∧
    u.semaphore.active = u.outstanding.length ∧
    u.accepted = u.granted ++ u.semaphore.queue ∧
    (after capacity (calls ++ [.acquire])).refused =
      (if u.semaphore.active = capacity.maxConcurrent ∧
          u.semaphore.queue.length = capacity.maxQueueDepth then u.refused ++ [u.arrived]
        else u.refused) ∧
    ∀ handle, (after capacity (calls ++ [.release handle])).granted =
      (if handle ∈ u.outstanding then u.granted ++ u.semaphore.queue.head?.toList
        else u.granted) := by
  intro u
  have h : Inv capacity u := inv_after capacity calls
  refine ⟨h.slots.bounded, h.slots.depth, h.full, h.slots.active, h.order, ?_, ?_⟩
  · rw [after, List.foldl_append]
    change (if (u.semaphore.acquire capacity u.arrived).1 = .atCapacity then
      u.refused ++ [u.arrived] else u.refused) = _
    simp only [ExecutionSemaphore.acquire_eq_atCapacity_iff h.slots]
  · intro handle
    rw [after, List.foldl_append]
    change (u.call capacity (.release handle)).granted = _
    have hflag : u.semaphore.released handle = true ↔ handle ∈ u.closed := h.released handle
    by_cases hgranted : handle ∈ u.granted
    · by_cases hclosed : handle ∈ u.closed
      · simp [call, outstanding, ExecutionSemaphore.resolves, hgranted, hclosed, hflag]
      · simp [call, outstanding, ExecutionSemaphore.resolves, hgranted, hclosed, hflag]
    · simp [call, outstanding, hgranted]

open Usage in
theorem semaphore_keeps_slots_waiting :
    (after ⟨1, 1, Nat.le_refl 1⟩ [.acquire, .acquire]).semaphore.queue ≠ [] ∧
      (after ⟨1, 1, Nat.le_refl 1⟩ [.acquire, .acquire]).semaphore.active = 1 := by
  have hwaits : (after ⟨1, 1, Nat.le_refl 1⟩ [.acquire, .acquire]).semaphore.queue ≠ [] := by decide
  exact ⟨hwaits, (semaphore_keeps_slots ⟨1, 1, Nat.le_refl 1⟩ [.acquire, .acquire]).2.2.1 hwaits⟩

end OpenRupiv.Sandbox
