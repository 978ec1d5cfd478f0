import Mathlib.Data.List.Basic
import Mathlib.Tactic.Common

/-!
# Classic packet filter programs

The part of the classic filter machine that system call filters use: an accumulator, loads of
32-bit words at fixed offsets, comparisons that jump forward only, a mask, and returns.
-/

namespace OpenRupiv.Lib.ClassicBpf

abbrev Word := BitVec 32

/-- The test of a conditional jump, of the accumulator against a constant. -/
inductive Test where
  | eq
  | gt
  | ge
  | set
  deriving DecidableEq

def Test.holds (test : Test) (a k : Word) : Bool :=
  match test with
  | .eq => a == k
  | .gt => k.ult a
  | .ge => k.ule a
  | .set => a &&& k != 0

inductive Instruction where
  | load (offset : Nat)
  | jump (test : Test) (k : Word) (jt jf : Nat)
  | always (offset : Nat)
  | and (k : Word)
  | ret (k : Word)
  deriving DecidableEq

/-- The operation that a code names, with its jump offsets and its constant. -/
def instructionOf (code jt jf k : Nat) : Option Instruction :=
  match code with
  | 0x20 => some (.load k)
  | 0x05 => some (.always k)
  | 0x15 => some (.jump .eq (BitVec.ofNat 32 k) jt jf)
  | 0x25 => some (.jump .gt (BitVec.ofNat 32 k) jt jf)
  | 0x35 => some (.jump .ge (BitVec.ofNat 32 k) jt jf)
  | 0x45 => some (.jump .set (BitVec.ofNat 32 k) jt jf)
  | 0x54 => some (.and (BitVec.ofNat 32 k))
  | 0x06 => some (.ret (BitVec.ofNat 32 k))
  | _ => none

/-- A program from its bytes, eight to an instruction and the low ones first. -/
def decode : List UInt8 → Option (List Instruction)
  | [] => some []
  | c0 :: c1 :: jt :: jf :: k0 :: k1 :: k2 :: k3 :: rest => do
    let code := c0.toNat + 256 * c1.toNat
    let k := k0.toNat + 256 * (k1.toNat + 256 * (k2.toNat + 256 * k3.toNat))
    let instruction ← instructionOf code jt.toNat jf.toNat k
    let instructions ← decode rest
    some (instruction :: instructions)
  | _ => none

variable {read : Nat → Option Word} {a : Word} {skip : Nat} {p q : List Instruction}

/-- What a program returns, after `skip` instructions that are jumped over. -/
def run (read : Nat → Option Word) : List Instruction → Nat → Word → Option Word
  | [], _, _ => none
  | _ :: rest, skip + 1, a => run read rest skip a
  | .load offset :: rest, 0, _ => (read offset).bind (run read rest 0)
  | .jump test k jt jf :: rest, 0, a => run read rest (if test.holds a k then jt else jf) a
  | .always offset :: rest, 0, a => run read rest offset a
  | .and k :: rest, 0, a => run read rest 0 (a &&& k)
  | .ret k :: _, 0, _ => some k

@[simp] theorem run_skip (i : Instruction) (a : Word) :
    run read (i :: p) (skip + 1) a = run read p skip a := rfl

@[simp] theorem run_load (offset : Nat) (a : Word) :
    run read (.load offset :: p) 0 a = (read offset).bind (run read p 0) := rfl

@[simp] theorem run_jump (test : Test) (k : Word) (jt jf : Nat) (a : Word) :
    run read (.jump test k jt jf :: p) 0 a =
      run read p (if test.holds a k then jt else jf) a := rfl

@[simp] theorem run_always (offset : Nat) (a : Word) :
    run read (.always offset :: p) 0 a = run read p offset a := rfl

@[simp] theorem run_and (k : Word) (a : Word) :
    run read (.and k :: p) 0 a = run read p 0 (a &&& k) := rfl

@[simp] theorem run_ret (k : Word) (a : Word) : run read (.ret k :: p) 0 a = some k := rfl

theorem run_append (q : List Instruction) :
    run read (p ++ q) (p.length + skip) a = run read q skip a := by
  induction p with
  | nil => rw [List.nil_append, List.length_nil, Nat.zero_add]
  | cons i p ih =>
    rw [List.cons_append, List.length_cons, show p.length + 1 + skip = p.length + skip + 1 by omega,
      run_skip, ih]

/-- Tests for a list of values that all jump to the instruction `behind` places after the last. -/
def ladder (behind : Nat) : List Word → List Instruction
  | [] => []
  | k :: ks => .jump .eq k (ks.length + behind) 0 :: ladder behind ks

@[simp] theorem length_ladder (behind : Nat) (ks : List Word) :
    (ladder behind ks).length = ks.length := by
  induction ks with
  | nil => rfl
  | cons k ks ih => rw [ladder, List.length_cons, List.length_cons, ih]

theorem run_ladder (behind : Nat) (ks : List Word) (q : List Instruction) :
    run read (ladder behind ks ++ q) 0 a = run read q (if a ∈ ks then behind else 0) a := by
  induction ks with
  | nil => rw [ladder, List.nil_append, if_neg List.not_mem_nil]
  | cons k ks ih =>
    rw [ladder, List.cons_append, run_jump]
    by_cases hk : a = k
    · have hjump : run read (ladder behind ks ++ q) ((ladder behind ks).length + behind) a =
          run read q behind a := run_append q
      rw [length_ladder] at hjump
      rw [if_pos (by simp [Test.holds, hk]), hjump, if_pos (by rw [hk]; exact List.mem_cons_self)]
    · have hmem : a ∈ k :: ks ↔ a ∈ ks := by
        rw [List.mem_cons, or_iff_right hk]
      rw [if_neg (by simpa [Test.holds] using hk), ih, if_congr hmem rfl rfl]

/-- What the loader demands: jumps stay inside the program, loads inside the data, and the last
instruction returns. -/
def accepted (size : Nat) : List Instruction → Bool
  | [] => false
  | [.ret _] => true
  | .load offset :: rest => offset % 4 == 0 && decide (offset < size) && accepted size rest
  | .jump _ _ jt jf :: rest =>
    decide (jt < rest.length) && decide (jf < rest.length) && accepted size rest
  | .always offset :: rest => decide (offset < rest.length) && accepted size rest
  | _ :: rest => accepted size rest

theorem accepted_tail {size : Nat} {i j : Instruction}
    (h : accepted size (i :: j :: p) = true) : accepted size (j :: p) = true := by
  cases i <;> simp_all [accepted]

/-- An accepted program returns, whatever the data holds and wherever a jump enters it. -/
theorem run_isSome_of_accepted {size : Nat}
    (hread : ∀ offset, offset % 4 = 0 → offset < size → (read offset).isSome = true)
    (h : accepted size p = true) (hskip : skip < p.length) : (run read p skip a).isSome = true := by
  induction p generalizing skip a with
  | nil => exact absurd hskip (Nat.not_lt_zero _)
  | cons i p ih =>
    cases skip with
    | succ skip =>
      cases p with
      | nil => exact absurd hskip (by simp)
      | cons j p => exact ih (accepted_tail h) (Nat.lt_of_succ_lt_succ hskip)
    | zero =>
      cases p with
      | nil => cases i <;> simp_all [accepted]
      | cons j p =>
        have htail := accepted_tail h
        cases i with
        | load offset =>
          simp only [accepted, Bool.and_eq_true, beq_iff_eq, decide_eq_true_eq] at h
          obtain ⟨w, hw⟩ := Option.isSome_iff_exists.mp (hread offset h.1.1 h.1.2)
          rw [run_load, hw]
          exact ih htail (Nat.zero_lt_succ _)
        | jump test k jt jf =>
          simp only [accepted, Bool.and_eq_true, decide_eq_true_eq] at h
          rw [run_jump]
          apply ih htail
          split
          · exact h.1.1
          · exact h.1.2
        | always offset =>
          simp only [accepted, Bool.and_eq_true, decide_eq_true_eq] at h
          exact ih htail h.1
        | and k => exact ih htail (Nat.zero_lt_succ _)
        | ret k => rfl

theorem length_pos_of_accepted {size : Nat} (h : accepted size p = true) : 0 < p.length := by
  cases p with
  | nil => exact absurd h (by simp [accepted])
  | cons i p => exact Nat.zero_lt_succ _

/-- A program that the loader has accepted for data of a size. -/
structure Filter (size : Nat) where
  program : List Instruction
  accepted : accepted size program = true

/-- What a filter returns on data that can be read at every aligned offset. -/
def Filter.result {size : Nat} (filter : Filter size) (read : Nat → Option Word)
    (hread : ∀ offset, offset % 4 = 0 → offset < size → (read offset).isSome = true) : Word :=
  (run read filter.program 0 0).get
    (run_isSome_of_accepted hread filter.accepted (length_pos_of_accepted filter.accepted))

theorem Filter.result_eq {size : Nat} {filter : Filter size} {w : Word}
    (hread : ∀ offset, offset % 4 = 0 → offset < size → (read offset).isSome = true)
    (h : run read filter.program 0 0 = some w) : filter.result read hread = w :=
  Option.get_of_eq_some _ h

end OpenRupiv.Lib.ClassicBpf
