import OpenRupiv.Lib.ClassicBpf
import Mathlib.Data.List.Induction

/-!
# The system call filter of the jail

The committed filter is a binary; what was reviewed is the list of rules that it was built from.
The two decide every system call alike.
-/

namespace OpenRupiv.Sandbox

open Lib.ClassicBpf

/-- The system calls that the rules name. -/
inductive Syscall where
  | mount
  | umount2
  | fsopen
  | fsconfig
  | fsmount
  | move_mount
  | open_tree
  | fspick
  | setns
  | ptrace
  | bpf
  | keyctl
  | add_key
  | request_key
  | userfaultfd
  | io_uring_setup
  | io_uring_enter
  | io_uring_register
  | process_vm_readv
  | process_vm_writev
  | open_by_handle_at
  | perf_event_open
  | clone
  | unshare
  | clone3
  | socket
  deriving DecidableEq

def Syscall.number : Syscall → Word
  | mount => 165
  | umount2 => 166
  | fsopen => 430
  | fsconfig => 431
  | fsmount => 432
  | move_mount => 429
  | open_tree => 428
  | fspick => 433
  | setns => 308
  | ptrace => 101
  | bpf => 321
  | keyctl => 250
  | add_key => 248
  | request_key => 249
  | userfaultfd => 323
  | io_uring_setup => 425
  | io_uring_enter => 426
  | io_uring_register => 427
  | process_vm_readv => 310
  | process_vm_writev => 311
  | open_by_handle_at => 304
  | perf_event_open => 298
  | clone => 56
  | unshare => 272
  | clone3 => 435
  | socket => 41

def AUDIT_ARCH_X86_64 : Word := 0xc000003e

def X32_SYSCALL_BIT : Word := 0x40000000

def CLONE_NEWUSER : BitVec 64 := 0x10000000

def AF_UNIX : BitVec 64 := 1

def ENOSYS : Nat := 38

/-- What the kernel hands to the filter. -/
structure SeccompData where
  nr : Word
  arch : Word
  instructionPointer : BitVec 64
  args : Fin 6 → BitVec 64

def low (x : BitVec 64) : Word := x.extractLsb' 0 32

def high (x : BitVec 64) : Word := x.extractLsb' 32 32

/-- The words of the data, in the order of the memory of a little-endian machine. -/
def SeccompData.words (call : SeccompData) : List Word :=
  [call.nr, call.arch, low call.instructionPointer, high call.instructionPointer,
    low (call.args 0), high (call.args 0), low (call.args 1), high (call.args 1),
    low (call.args 2), high (call.args 2), low (call.args 3), high (call.args 3),
    low (call.args 4), high (call.args 4), low (call.args 5), high (call.args 5)]

def SeccompData.size : Nat := 64

def SeccompData.read (call : SeccompData) (offset : Nat) : Option Word :=
  if offset % 4 = 0 then call.words[offset / 4]? else none

theorem SeccompData.isSome_read (call : SeccompData) (offset : Nat) (halign : offset % 4 = 0)
    (hsize : offset < SeccompData.size) : (call.read offset).isSome = true := by
  have hlt : offset / 4 < call.words.length := by
    change offset / 4 < 16
    change offset < 64 at hsize
    omega
  rw [SeccompData.read, if_pos halign, List.getElem?_eq_getElem hlt]
  rfl

inductive ScmpAction where
  | allow
  | killProcess
  | killThread
  | errno (code : Nat)
  deriving DecidableEq

/-- The return value by which a filter asks for an action. -/
def ScmpAction.code : ScmpAction → Word
  | .allow => 0x7fff0000
  | .killProcess => 0x80000000
  | .killThread => 0
  | .errno code => 0x00050000 ||| BitVec.ofNat 32 code

inductive ScmpCompare where
  | ne (datum : BitVec 64)
  | maskedEq (mask datum : BitVec 64)

def ScmpCompare.holds (test : ScmpCompare) (x : BitVec 64) : Bool :=
  match test with
  | .ne datum => x != datum
  | .maskedEq mask datum => x &&& mask == datum

/-- A call of `seccomp_rule_add`, with the comparison of the first argument if it has one. -/
structure ScmpRule where
  action : ScmpAction
  syscall : Syscall
  arg0 : Option ScmpCompare

def ScmpRule.applies (rule : ScmpRule) (call : SeccompData) : Bool :=
  call.nr == rule.syscall.number && rule.arg0.all (·.holds (call.args 0))

def deny (syscall : Syscall) : ScmpRule :=
  { action := .killProcess, syscall, arg0 := none }

def deniedSyscalls : List Syscall :=
  [.mount, .umount2, .fsopen, .fsconfig, .fsmount, .move_mount, .open_tree, .fspick, .setns,
    .ptrace, .bpf, .keyctl, .add_key, .request_key, .userfaultfd, .io_uring_setup,
    .io_uring_enter, .io_uring_register, .process_vm_readv, .process_vm_writev,
    .open_by_handle_at, .perf_event_open]

def argumentRules : List ScmpRule :=
  [{ action := .killProcess, syscall := .clone,
      arg0 := some (.maskedEq CLONE_NEWUSER CLONE_NEWUSER) },
    { action := .killProcess, syscall := .unshare,
      arg0 := some (.maskedEq CLONE_NEWUSER CLONE_NEWUSER) },
    { action := .errno ENOSYS, syscall := .clone3, arg0 := none },
    { action := .killProcess, syscall := .socket, arg0 := some (.ne AF_UNIX) }]

/-- The rules that the build program adds to a filter which allows by default. -/
def filterRules : List ScmpRule := deniedSyscalls.map deny ++ argumentRules

/-- The action that rules ask for on top of a filter that allows by default. -/
def ruleAction (rules : List ScmpRule) (call : SeccompData) : ScmpAction :=
  ((rules.find? (·.applies call)).map ScmpRule.action).getD .allow

/-- The calls of another architecture, and the ones of the 32-bit ABI that shares this one's
code; the number -1 belongs to no ABI. -/
def SeccompData.isForeign (call : SeccompData) : Bool :=
  call.arch != AUDIT_ARCH_X86_64 || (X32_SYSCALL_BIT.ule call.nr && call.nr != 0xffffffff)

/-- The action that the rules ask for; a filter for one architecture kills what calls through
another. -/
def filterAction (call : SeccompData) : ScmpAction :=
  if call.isForeign then .killThread else ruleAction filterRules call

/-- The committed file `tool.bpf`, by rows of eight bytes. -/
def toolBpf : List UInt8 :=
  [[0x20, 0, 0, 0, 0x04, 0, 0, 0],
    [0x15, 0, 0, 0x2a, 0x3e, 0, 0, 0xc0],
    [0x20, 0, 0, 0, 0, 0, 0, 0],
    [0x35, 0, 0, 0x01, 0, 0, 0, 0x40],
    [0x15, 0, 0, 0x27, 0xff, 0xff, 0xff, 0xff],
    [0x15, 0, 0x25, 0, 0x65, 0, 0, 0],
    [0x15, 0, 0x24, 0, 0xa5, 0, 0, 0],
    [0x15, 0, 0x23, 0, 0xa6, 0, 0, 0],
    [0x15, 0, 0x22, 0, 0xf8, 0, 0, 0],
    [0x15, 0, 0x21, 0, 0xf9, 0, 0, 0],
    [0x15, 0, 0x20, 0, 0xfa, 0, 0, 0],
    [0x15, 0, 0x1f, 0, 0x2a, 0x01, 0, 0],
    [0x15, 0, 0x1e, 0, 0x30, 0x01, 0, 0],
    [0x15, 0, 0x1d, 0, 0x34, 0x01, 0, 0],
    [0x15, 0, 0x1c, 0, 0x36, 0x01, 0, 0],
    [0x15, 0, 0x1b, 0, 0x37, 0x01, 0, 0],
    [0x15, 0, 0x1a, 0, 0x41, 0x01, 0, 0],
    [0x15, 0, 0x19, 0, 0x43, 0x01, 0, 0],
    [0x15, 0, 0x18, 0, 0xa9, 0x01, 0, 0],
    [0x15, 0, 0x17, 0, 0xaa, 0x01, 0, 0],
    [0x15, 0, 0x16, 0, 0xab, 0x01, 0, 0],
    [0x15, 0, 0x15, 0, 0xac, 0x01, 0, 0],
    [0x15, 0, 0x14, 0, 0xad, 0x01, 0, 0],
    [0x15, 0, 0x13, 0, 0xae, 0x01, 0, 0],
    [0x15, 0, 0x12, 0, 0xaf, 0x01, 0, 0],
    [0x15, 0, 0x11, 0, 0xb0, 0x01, 0, 0],
    [0x15, 0, 0x10, 0, 0xb1, 0x01, 0, 0],
    [0x15, 0, 0, 0x01, 0xb3, 0x01, 0, 0],
    [0x06, 0, 0, 0, 0x26, 0, 0x05, 0],
    [0x15, 0, 0, 0x04, 0x29, 0, 0, 0],
    [0x20, 0, 0, 0, 0x14, 0, 0, 0],
    [0x15, 0, 0, 0x0b, 0, 0, 0, 0],
    [0x20, 0, 0, 0, 0x10, 0, 0, 0],
    [0x15, 0, 0x08, 0x09, 0x01, 0, 0, 0],
    [0x15, 0, 0x01, 0, 0x38, 0, 0, 0],
    [0x15, 0, 0, 0x06, 0x10, 0x01, 0, 0],
    [0x20, 0, 0, 0, 0x14, 0, 0, 0],
    [0x54, 0, 0, 0, 0, 0, 0, 0],
    [0x15, 0, 0, 0x03, 0, 0, 0, 0],
    [0x20, 0, 0, 0, 0x10, 0, 0, 0],
    [0x54, 0, 0, 0, 0, 0, 0, 0x10],
    [0x15, 0, 0x01, 0, 0, 0, 0, 0x10],
    [0x06, 0, 0, 0, 0, 0, 0xff, 0x7f],
    [0x06, 0, 0, 0, 0, 0, 0, 0x80],
    [0x06, 0, 0, 0, 0, 0, 0, 0]].flatten

/-- The instructions behind the list of denied numbers: the calls decided by an argument, then the
three returns. -/
def argumentTests : List Instruction :=
  [.jump .eq Syscall.clone3.number 0 1, .ret 0x50026, .jump .eq Syscall.socket.number 0 4,
    .load 20, .jump .eq 0 0 11, .load 16, .jump .eq 1 8 9, .jump .eq Syscall.clone.number 1 0,
    .jump .eq Syscall.unshare.number 0 6, .load 20, .and 0, .jump .eq 0 0 3, .load 16,
    .and 0x10000000, .jump .eq 0x10000000 1 0, .ret 0x7fff0000, .ret 0x80000000, .ret 0]

/-- The denied numbers in the order in which the filter compares them. -/
def deniedNumbers : List Word :=
  [101, 165, 166, 248, 249, 250, 298, 304, 308, 310, 311, 321, 323, 425, 426, 427, 428, 429, 430,
    431, 432, 433]

def toolProgram : List Instruction :=
  .load 4 :: .jump .eq AUDIT_ARCH_X86_64 0 42 :: .load 0 :: .jump .ge X32_SYSCALL_BIT 0 1 ::
    .jump .eq 0xffffffff 0 39 :: (ladder 16 deniedNumbers ++ argumentTests)

theorem decode_toolBpf : decode toolBpf = some toolProgram := by
  decide +kernel

theorem accepted_toolProgram : accepted SeccompData.size toolProgram = true := by
  decide +kernel

theorem mem_deniedNumbers {nr : Word} :
    nr ∈ deniedNumbers ↔ nr ∈ deniedSyscalls.map Syscall.number := by
  have hperm : deniedNumbers.Perm (deniedSyscalls.map Syscall.number) := by decide +kernel
  exact hperm.mem_iff

/-- What a process in the jail may ask of the kernel. -/
structure Permitted (call : SeccompData) : Prop where
  isNative : call.arch = AUDIT_ARCH_X86_64 ∧
    (call.nr.toNat < X32_SYSCALL_BIT.toNat ∨ call.nr = 0xffffffff)
  notDenied : ∀ syscall ∈ deniedSyscalls, call.nr ≠ syscall.number
  noUserNamespace : call.nr = Syscall.clone.number ∨ call.nr = Syscall.unshare.number →
    call.args 0 &&& CLONE_NEWUSER ≠ CLONE_NEWUSER
  notClone3 : call.nr ≠ Syscall.clone3.number
  unixSocketsOnly : call.nr = Syscall.socket.number → call.args 0 = AF_UNIX

/-- The calls that a process does not survive.  `clone3` only fails, and a call of a foreign
architecture ends the thread alone that makes it. -/
def EndsProcess (call : SeccompData) : Prop :=
  ¬ Permitted call ∧ call.isForeign = false ∧ call.nr ≠ Syscall.clone3.number

private theorem toNat_halves (x : BitVec 64) :
    (low x).toNat = x.toNat % 4294967296 ∧ (high x).toNat = x.toNat / 4294967296 := by
  constructor
  · simp [low]
  · have hlt := x.isLt
    simp only [high, BitVec.extractLsb'_toNat, Nat.shiftRight_eq_div_pow]
    omega

theorem eq_iff_halves {x y : BitVec 64} : x = y ↔ high x = high y ∧ low x = low y := by
  constructor
  · rintro rfl
    exact ⟨rfl, rfl⟩
  · intro ⟨hhigh, hlow⟩
    have hx := toNat_halves x
    have hy := toNat_halves y
    rw [hhigh, hlow] at hx
    apply BitVec.eq_of_toNat_eq
    omega

theorem eq_AF_UNIX_iff {x : BitVec 64} : x = AF_UNIX ↔ high x = 0#32 ∧ low x = 1#32 := by
  rw [eq_iff_halves]
  rfl

theorem and_CLONE_NEWUSER_iff {x : BitVec 64} :
    x &&& CLONE_NEWUSER = CLONE_NEWUSER ↔ low x &&& 0x10000000#32 = 0x10000000#32 := by
  have hhigh : high (x &&& CLONE_NEWUSER) = 0 := by
    have hand : high (x &&& CLONE_NEWUSER) = high x &&& high CLONE_NEWUSER :=
      BitVec.extractLsb'_and ..
    rw [hand]
    exact BitVec.and_zero
  have hlow : low (x &&& CLONE_NEWUSER) = low x &&& 0x10000000 := BitVec.extractLsb'_and ..
  rw [eq_iff_halves, hhigh, hlow]
  exact and_iff_right rfl

theorem find?_of_number {rules : List ScmpRule} {call : SeccompData}
    (h : ∀ rule ∈ rules, call.nr ≠ rule.syscall.number) :
    rules.find? (·.applies call) = none := by
  apply List.find?_eq_none.mpr
  intro rule hrule happlies
  simp only [ScmpRule.applies, Bool.and_eq_true, beq_iff_eq] at happlies
  exact h rule hrule happlies.1

theorem find?_deny (call : SeccompData) (syscalls : List Syscall) :
    ((syscalls.map deny).find? (·.applies call)).map ScmpRule.action =
      if call.nr ∈ syscalls.map Syscall.number then some .killProcess else none := by
  induction syscalls with
  | nil => rfl
  | cons syscall syscalls ih =>
    rw [List.map_cons, List.map_cons, List.find?_cons]
    by_cases hnr : call.nr = syscall.number
    · have happlies : (deny syscall).applies call = true := by
        simp [ScmpRule.applies, deny, hnr]
      rw [happlies, if_pos (by rw [hnr]; exact List.mem_cons_self)]
      rfl
    · have happlies : (deny syscall).applies call = false := by
        simp [ScmpRule.applies, deny, hnr]
      have hmem : call.nr ∈ syscall.number :: syscalls.map Syscall.number ↔
          call.nr ∈ syscalls.map Syscall.number := by
        rw [List.mem_cons, or_iff_right hnr]
      rw [happlies, if_congr hmem rfl rfl]
      exact ih

theorem ruleAction_filterRules (call : SeccompData) :
    ruleAction filterRules call =
      if call.nr ∈ deniedNumbers then .killProcess else ruleAction argumentRules call := by
  have hdeny := find?_deny call deniedSyscalls
  rw [ruleAction, filterRules, List.find?_append]
  by_cases hmem : call.nr ∈ deniedSyscalls.map Syscall.number
  · rw [if_pos hmem] at hdeny
    obtain ⟨rule, hrule, haction⟩ := Option.map_eq_some_iff.mp hdeny
    rw [hrule, Option.some_or, Option.map_some, haction, if_pos (mem_deniedNumbers.mpr hmem)]
    rfl
  · rw [if_neg hmem] at hdeny
    rw [Option.map_eq_none_iff.mp hdeny, Option.none_or, if_neg (mt mem_deniedNumbers.mp hmem)]
    rfl

section Arguments

variable {call : SeccompData}

private theorem read_arg0 : call.read 16 = some (low (call.args 0)) := rfl

private theorem read_arg0_high : call.read 20 = some (high (call.args 0)) := rfl

theorem ruleAction_argumentRules (call : SeccompData) :
    ruleAction argumentRules call =
      if call.nr = Syscall.clone3.number then .errno ENOSYS
      else if call.nr = Syscall.socket.number then
        if call.args 0 = AF_UNIX then .allow else .killProcess
      else if call.nr = Syscall.clone.number ∨ call.nr = Syscall.unshare.number then
        if call.args 0 &&& CLONE_NEWUSER = CLONE_NEWUSER then .killProcess else .allow
      else .allow := by
  by_cases hclone3 : call.nr = Syscall.clone3.number
  · simp [ruleAction, argumentRules, ScmpRule.applies, hclone3, Syscall.number]
  by_cases hsocket : call.nr = Syscall.socket.number
  · rw [if_neg hclone3, if_pos hsocket]
    by_cases harg : call.args 0 = AF_UNIX <;>
      simp [ruleAction, argumentRules, ScmpRule.applies, ScmpCompare.holds, hsocket, harg,
        Syscall.number]
  rw [if_neg hclone3, if_neg hsocket]
  by_cases hnamespace : call.nr = Syscall.clone.number ∨ call.nr = Syscall.unshare.number
  · rw [if_pos hnamespace]
    rcases hnamespace with hnr | hnr <;>
      by_cases harg : call.args 0 &&& CLONE_NEWUSER = CLONE_NEWUSER <;>
        simp [ruleAction, argumentRules, ScmpRule.applies, ScmpCompare.holds, hnr, harg,
          Syscall.number]
  · have hnone : argumentRules.find? (·.applies call) = none := by
      apply find?_of_number
      intro rule hrule
      simp only [argumentRules, List.mem_cons, List.not_mem_nil, or_false] at hrule
      rcases hrule with rfl | rfl | rfl | rfl
      · exact fun hnr => hnamespace (.inl hnr)
      · exact fun hnr => hnamespace (.inr hnr)
      · exact hclone3
      · exact hsocket
    rw [if_neg hnamespace, ruleAction, hnone]
    rfl

private theorem run_socket (h : call.nr = Syscall.socket.number) :
    run call.read argumentTests 0 call.nr =
      some (if call.args 0 = AF_UNIX then ScmpAction.allow else .killProcess).code := by
  by_cases hhigh : high (call.args 0) = 0#32
  · by_cases hlow : low (call.args 0) = 1#32
    · rw [if_pos (eq_AF_UNIX_iff.mpr ⟨hhigh, hlow⟩)]
      simp [argumentTests, Test.holds, h, Syscall.number, read_arg0, read_arg0_high, hhigh, hlow]
      rfl
    · rw [if_neg (fun harg => hlow (eq_AF_UNIX_iff.mp harg).2)]
      simp [argumentTests, Test.holds, h, Syscall.number, read_arg0, read_arg0_high, hhigh, hlow]
      rfl
  · rw [if_neg (fun harg => hhigh (eq_AF_UNIX_iff.mp harg).1)]
    simp [argumentTests, Test.holds, h, Syscall.number, read_arg0_high, hhigh]
    rfl

private theorem run_namespace (h : call.nr = Syscall.clone.number ∨
      call.nr = Syscall.unshare.number) :
    run call.read argumentTests 0 call.nr =
      some (if call.args 0 &&& CLONE_NEWUSER = CLONE_NEWUSER then ScmpAction.killProcess
        else .allow).code := by
  by_cases hmask : low (call.args 0) &&& 0x10000000#32 = 0x10000000#32
  · rw [if_pos (and_CLONE_NEWUSER_iff.mpr hmask)]
    rcases h with h | h <;>
      simp [argumentTests, Test.holds, h, Syscall.number, read_arg0, read_arg0_high, hmask] <;>
      rfl
  · rw [if_neg (mt and_CLONE_NEWUSER_iff.mp hmask)]
    rcases h with h | h <;>
      simp [argumentTests, Test.holds, h, Syscall.number, read_arg0, read_arg0_high, hmask] <;>
      rfl

/-- The tests of the arguments return what the rules with arguments ask for. -/
theorem run_argumentTests (call : SeccompData) :
    run call.read argumentTests 0 call.nr = some (ruleAction argumentRules call).code := by
  rw [ruleAction_argumentRules]
  by_cases hclone3 : call.nr = Syscall.clone3.number
  · rw [if_pos hclone3]
    simp [argumentTests, Test.holds, hclone3]
    rfl
  by_cases hsocket : call.nr = Syscall.socket.number
  · rw [if_neg hclone3, if_pos hsocket]
    exact run_socket hsocket
  rw [if_neg hclone3, if_neg hsocket]
  by_cases hnamespace : call.nr = Syscall.clone.number ∨ call.nr = Syscall.unshare.number
  · rw [if_pos hnamespace]
    exact run_namespace hnamespace
  · obtain ⟨hclone, hunshare⟩ := not_or.mp hnamespace
    rw [if_neg hnamespace]
    simp [argumentTests, Test.holds, hclone3, hsocket, hclone, hunshare]
    rfl

end Arguments

private theorem run_native (call : SeccompData) :
    run call.read (ladder 16 deniedNumbers ++ argumentTests) 0 call.nr =
      some (ruleAction filterRules call).code := by
  rw [run_ladder, ruleAction_filterRules]
  split
  · rfl
  · exact run_argumentTests call

private theorem run_toolProgram (call : SeccompData) :
    run call.read toolProgram 0 0 = some (filterAction call).code := by
  have hnr : call.read 0 = some call.nr := rfl
  have harch : call.read 4 = some call.arch := rfl
  rw [toolProgram, run_load, harch, Option.bind_some, run_jump, filterAction,
    SeccompData.isForeign]
  by_cases hforeign : call.arch = AUDIT_ARCH_X86_64
  · have htest : Test.holds .eq call.arch AUDIT_ARCH_X86_64 = true := by simp [Test.holds, hforeign]
    rw [htest, if_pos rfl, run_load, hnr, Option.bind_some, run_jump]
    by_cases hx32 : X32_SYSCALL_BIT.ule call.nr = true
    · rw [show Test.holds .ge call.nr X32_SYSCALL_BIT = true from hx32, if_pos rfl, run_jump]
      by_cases hnone : call.nr = 0xffffffff
      · have hskip : Test.holds .eq call.nr 0xffffffff = true := by simp [Test.holds, hnone]
        rw [hskip, if_pos rfl, if_neg (by simp [hforeign, hnone])]
        exact run_native call
      · have hskip : Test.holds .eq call.nr 0xffffffff = false := by simpa [Test.holds] using hnone
        rw [hskip, if_neg (by simp), if_pos (by simpa [hforeign, hx32] using hnone)]
        rfl
    · rw [show Test.holds .ge call.nr X32_SYSCALL_BIT = false from Bool.not_eq_true _ |>.mp hx32,
        if_neg (by simp), if_neg (by simp [hforeign, hx32])]
      exact run_native call
  · have htest : Test.holds .eq call.arch AUDIT_ARCH_X86_64 = false := by
      simp [Test.holds, hforeign]
    rw [htest, if_neg (by simp), if_pos (by simp [hforeign])]
    rfl

/-- The filter that the kernel loads for the jail. -/
def toolFilter : Filter SeccompData.size :=
  { program := toolProgram, accepted := accepted_toolProgram }

/-- What a filter returns for a system call. -/
def verdict (filter : Filter SeccompData.size) (call : SeccompData) : Word :=
  filter.result call.read call.isSome_read

theorem verdict_toolFilter (call : SeccompData) :
    verdict toolFilter call = (filterAction call).code :=
  Filter.result_eq _ (run_toolProgram call)

/-- The committed file is a filter that the kernel accepts, and it decides every system call of
every process as the reviewed rules do, down to both halves of the arguments they compare. -/
theorem tool_bpf_follows_the_rules :
    ∃ filter : Filter SeccompData.size, decode toolBpf = some filter.program ∧
      ∀ call, verdict filter call = (filterAction call).code :=
  ⟨toolFilter, decode_toolBpf, verdict_toolFilter⟩

/-- The action that the kernel takes on a return value; it kills for one that it does not know. -/
def actionOf (code : Word) : ScmpAction :=
  if code &&& 0xffff0000 = ScmpAction.allow.code then .allow
  else if code &&& 0xffff0000 = 0x00050000 then .errno (code &&& 0xffff).toNat
  else if code &&& 0xffff0000 = ScmpAction.killThread.code then .killThread
  else .killProcess

/-- A thread of a process. -/
structure Task where
  pid : Nat
  tid : Nat
deriving DecidableEq

/-- The processes of a jail share the filter; what was killed makes no more calls. -/
structure Jailed where
  endedThreads : List Task
  endedProcesses : List Nat
  served : List (Task × SeccompData)

def Jailed.Ended (jailed : Jailed) (task : Task) : Prop :=
  task ∈ jailed.endedThreads ∨ task.pid ∈ jailed.endedProcesses

instance (jailed : Jailed) (task : Task) : Decidable (jailed.Ended task) :=
  inferInstanceAs (Decidable (_ ∨ _))

/-- A thread attempts a system call. -/
def Jailed.attempt (filter : Filter SeccompData.size) (jailed : Jailed)
    (event : Task × SeccompData) : Jailed :=
  if jailed.Ended event.1 then jailed
  else
    match actionOf (verdict filter event.2) with
    | .allow => { jailed with served := jailed.served ++ [event] }
    | .errno _ => jailed
    | .killThread => { jailed with endedThreads := event.1 :: jailed.endedThreads }
    | .killProcess => { jailed with endedProcesses := event.1.pid :: jailed.endedProcesses }

def runJailed (filter : Filter SeccompData.size) (events : List (Task × SeccompData)) : Jailed :=
  events.foldl (Jailed.attempt filter) { endedThreads := [], endedProcesses := [], served := [] }

theorem isForeign_eq_false_iff {call : SeccompData} :
    call.isForeign = false ↔ call.arch = AUDIT_ARCH_X86_64 ∧
      (call.nr.toNat < X32_SYSCALL_BIT.toNat ∨ call.nr = 0xffffffff) := by
  simp only [SeccompData.isForeign, Bool.or_eq_false_iff, Bool.and_eq_false_iff, bne_eq_false_iff_eq,
    BitVec.ule, decide_eq_false_iff_not, Nat.not_le]

theorem filterAction_clone3 {call : SeccompData} (hnative : call.isForeign = false)
    (h : call.nr = Syscall.clone3.number) : filterAction call = .errno ENOSYS := by
  have hdenied : call.nr ∉ deniedNumbers := by
    rw [h]
    decide +kernel
  rw [filterAction, hnative, if_neg Bool.false_ne_true, ruleAction_filterRules, if_neg hdenied,
    ruleAction_argumentRules, if_pos h]

theorem filterAction_permitted {call : SeccompData} (h : Permitted call) :
    filterAction call = .allow := by
  have hdenied : call.nr ∉ deniedNumbers := by
    rw [mem_deniedNumbers]
    intro hmem
    obtain ⟨syscall, hsyscall, hnr⟩ := List.mem_map.mp hmem
    exact h.notDenied syscall hsyscall hnr.symm
  rw [filterAction, isForeign_eq_false_iff.mpr h.isNative, if_neg Bool.false_ne_true,
    ruleAction_filterRules, if_neg hdenied, ruleAction_argumentRules, if_neg h.notClone3]
  split
  · rename_i hsocket
    exact if_pos (h.unixSocketsOnly hsocket)
  · split
    · rename_i hnamespace
      exact if_neg (h.noUserNamespace hnamespace)
    · rfl

theorem filterAction_endsProcess {call : SeccompData} (h : EndsProcess call) :
    filterAction call = .killProcess := by
  obtain ⟨hforbidden, hnative, hclone3⟩ := h
  rw [filterAction, hnative, if_neg Bool.false_ne_true, ruleAction_filterRules]
  split
  · rfl
  · rename_i hdenied
    rw [ruleAction_argumentRules, if_neg hclone3]
    by_contra hlets
    apply hforbidden
    refine ⟨isForeign_eq_false_iff.mp hnative, ?_, ?_, hclone3, ?_⟩
    · intro syscall hsyscall hnr
      apply hdenied
      rw [mem_deniedNumbers, hnr]
      exact List.mem_map_of_mem hsyscall
    · intro hnamespace hmask
      have hsocket : call.nr ≠ Syscall.socket.number := by
        rcases hnamespace with hnr | hnr <;> rw [hnr] <;> decide
      rw [if_neg hsocket, if_pos hnamespace, if_pos hmask] at hlets
      exact hlets rfl
    · intro hsocket
      by_contra harg
      rw [if_pos hsocket, if_neg harg] at hlets
      exact hlets rfl

section Attempts

variable {jailed : Jailed} {task : Task} {call : SeccompData}

private theorem attempt_ended (h : jailed.Ended task) :
    jailed.attempt toolFilter (task, call) = jailed := if_pos h

private theorem attempt_permitted (hlive : ¬jailed.Ended task) (h : Permitted call) :
    jailed.attempt toolFilter (task, call) =
      { jailed with served := jailed.served ++ [(task, call)] } := by
  have haction : actionOf (verdict toolFilter call) = .allow := by
    rw [verdict_toolFilter, filterAction_permitted h]
    decide
  rw [Jailed.attempt, if_neg hlive, haction]

private theorem attempt_foreign (hlive : ¬jailed.Ended task) (h : call.isForeign = true) :
    jailed.attempt toolFilter (task, call) =
      { jailed with endedThreads := task :: jailed.endedThreads } := by
  have haction : actionOf (verdict toolFilter call) = .killThread := by
    rw [verdict_toolFilter, filterAction, if_pos h]
    decide
  rw [Jailed.attempt, if_neg hlive, haction]

private theorem attempt_endsProcess (hlive : ¬jailed.Ended task) (h : EndsProcess call) :
    jailed.attempt toolFilter (task, call) =
      { jailed with endedProcesses := task.pid :: jailed.endedProcesses } := by
  have haction : actionOf (verdict toolFilter call) = .killProcess := by
    rw [verdict_toolFilter, filterAction_endsProcess h]
    decide
  rw [Jailed.attempt, if_neg hlive, haction]

/-- `clone3` fails, and its thread goes on. -/
private theorem attempt_clone3 (hlive : ¬jailed.Ended task) (hnative : call.isForeign = false)
    (hnr : call.nr = Syscall.clone3.number) :
    jailed.attempt toolFilter (task, call) = jailed := by
  have haction : actionOf (verdict toolFilter call) = .errno ENOSYS := by
    rw [verdict_toolFilter, filterAction_clone3 hnative hnr]
    decide
  rw [Jailed.attempt, if_neg hlive, haction]

end Attempts

theorem runJailed_concat (events : List (Task × SeccompData)) (event : Task × SeccompData) :
    runJailed toolFilter (events ++ [event]) =
      (runJailed toolFilter events).attempt toolFilter event := by
  rw [runJailed, runJailed, List.foldl_append]
  rfl

/-- The thread made a call of a foreign architecture, or a thread of its process that had made none
before made a call that ends the process. -/
def Gone (before : List (Task × SeccompData)) (task : Task) : Prop :=
  (∃ call, (task, call) ∈ before ∧ call.isForeign = true) ∨
    ∃ earlier other call later, before = earlier ++ (other, call) :: later ∧
      other.pid = task.pid ∧ EndsProcess call ∧ ∀ c, (other, c) ∈ earlier → c.isForeign = false

theorem gone_concat {before : List (Task × SeccompData)} {other task : Task} {call : SeccompData} :
    Gone (before ++ [(other, call)]) task ↔ Gone before task ∨
      (task = other ∧ call.isForeign = true) ∨
      (other.pid = task.pid ∧ EndsProcess call ∧ ∀ c, (other, c) ∈ before → c.isForeign = false) := by
  constructor
  · rintro (⟨c, hmem, hforeign⟩ | ⟨earlier, o, c, later, heq, hpid, hends, hbefore⟩)
    · rw [List.mem_append, List.mem_singleton, Prod.mk.injEq] at hmem
      obtain hmem | ⟨rfl, rfl⟩ := hmem
      · exact .inl (.inl ⟨c, hmem, hforeign⟩)
      · exact .inr (.inl ⟨rfl, hforeign⟩)
    · rcases List.eq_nil_or_concat later with rfl | ⟨later, last, rfl⟩
      · obtain ⟨rfl, hlast⟩ := List.append_inj' heq rfl
        obtain ⟨rfl, rfl⟩ := Prod.mk.inj (List.head_eq_of_cons_eq hlast)
        exact .inr (.inr ⟨hpid, hends, hbefore⟩)
      · rw [List.concat_eq_append, ← List.cons_append, ← List.append_assoc] at heq
        obtain ⟨rfl, -⟩ := List.append_inj' heq rfl
        exact .inl (.inr ⟨earlier, o, c, later, rfl, hpid, hends, hbefore⟩)
  · rintro ((⟨c, hmem, hforeign⟩ | ⟨earlier, o, c, later, rfl, hpid, hends, hbefore⟩) |
      ⟨rfl, hforeign⟩ | ⟨hpid, hends, hbefore⟩)
    · exact .inl ⟨c, List.mem_append_left _ hmem, hforeign⟩
    · exact .inr ⟨earlier, o, c, later ++ [(other, call)], by simp, hpid, hends, hbefore⟩
    · exact .inl ⟨call, by simp, hforeign⟩
    · exact .inr ⟨before, other, call, [], rfl, hpid, hends, hbefore⟩

theorem ended_runJailed {events : List (Task × SeccompData)} {task : Task} :
    (runJailed toolFilter events).Ended task ↔ Gone events task := by
  induction events using List.reverseRecOn generalizing task with
  | nil => simp [runJailed, Jailed.Ended, Gone]
  | append_singleton events event ih =>
    obtain ⟨other, call⟩ := event
    rw [runJailed_concat, gone_concat, ← ih]
    by_cases hended : (runJailed toolFilter events).Ended other
    · rw [attempt_ended hended, iff_self_or]
      rintro (⟨rfl, -⟩ | ⟨hpid, -, hnative⟩)
      · exact hended
      · rw [ih] at hended ⊢
        obtain ⟨c, hmem, hforeign⟩ | ⟨earlier, o, c, later, heq, ho, hends, hbefore⟩ := hended
        · rw [hnative c hmem] at hforeign
          exact absurd hforeign Bool.false_ne_true
        · exact .inr ⟨earlier, o, c, later, heq, ho.trans hpid, hends, hbefore⟩
    have hnative : ∀ c, (other, c) ∈ events → c.isForeign = false := by
      intro c hmem
      by_contra hforeign
      exact hended (ih.mpr (.inl ⟨c, hmem, by simpa using hforeign⟩))
    by_cases hpermitted : Permitted call
    · have hforeign := isForeign_eq_false_iff.mpr hpermitted.isNative
      have hspared : ¬ EndsProcess call := fun h => h.1 hpermitted
      rw [attempt_permitted hended hpermitted]
      simp [Jailed.Ended, hforeign, hspared]
    cases hforeign : call.isForeign with
    | true =>
      have hspared : ¬ EndsProcess call := fun h => absurd (hforeign.symm.trans h.2.1) (by simp)
      rw [attempt_foreign hended hforeign]
      simp only [Jailed.Ended, List.mem_cons, hspared]
      tauto
    | false =>
      by_cases hnr : call.nr = Syscall.clone3.number
      · have hspared : ¬ EndsProcess call := fun h => h.2.2 hnr
        rw [attempt_clone3 hended hforeign hnr]
        simp [hspared]
      · have hends : EndsProcess call := ⟨hpermitted, hforeign, hnr⟩
        rw [attempt_endsProcess hended hends]
        have hpid : task.pid = other.pid ↔ other.pid = task.pid := eq_comm
        simp only [Jailed.Ended, List.mem_cons, hpid]
        tauto

/-- The part of the attempted calls that a monitor lets through which knows the permitted calls
and remembers what was attempted before. -/
noncomputable def monitored (before : List (Task × SeccompData)) :
    List (Task × SeccompData) → List (Task × SeccompData)
  | [] => []
  | event :: rest =>
    open Classical in
    (if Permitted event.2 ∧ ¬Gone before event.1 then [event] else []) ++
      monitored (before ++ [event]) rest

open Classical in
theorem monitored_concat (before events : List (Task × SeccompData)) (event : Task × SeccompData) :
    monitored before (events ++ [event]) = monitored before events ++
      if Permitted event.2 ∧ ¬Gone (before ++ events) event.1 then [event] else [] := by
  induction events generalizing before with
  | nil => rw [List.nil_append, monitored, monitored, monitored, List.append_nil, List.append_nil,
      List.nil_append]
  | cons first events ih =>
    rw [List.cons_append, monitored, monitored, ih, List.append_assoc, List.append_assoc,
      List.singleton_append]

/-- In every interleaving of the system calls that the threads of a jail attempt, the kernel serves
exactly the permitted calls of threads that are not gone, in their order. -/
theorem jailed_calls_are_monitored (events : List (Task × SeccompData)) :
    (runJailed toolFilter events).served = monitored [] events := by
  induction events using List.reverseRecOn with
  | nil => rfl
  | append_singleton events event ih =>
    obtain ⟨task, call⟩ := event
    rw [runJailed_concat, monitored_concat, List.nil_append, ← ih]
    by_cases hended : (runJailed toolFilter events).Ended task
    · rw [attempt_ended hended, if_neg (fun h => h.2 (ended_runJailed.mp hended)), List.append_nil]
    have hlive : ¬Gone events task := fun h => hended (ended_runJailed.mpr h)
    by_cases hpermitted : Permitted call
    · rw [attempt_permitted hended hpermitted, if_pos ⟨hpermitted, hlive⟩]
    rw [if_neg (fun h => hpermitted h.1), List.append_nil]
    cases hforeign : call.isForeign with
    | true => rw [attempt_foreign hended hforeign]
    | false =>
      by_cases hnr : call.nr = Syscall.clone3.number
      · rw [attempt_clone3 hended hforeign hnr]
      · rw [attempt_endsProcess hended ⟨hpermitted, hforeign, hnr⟩]

end OpenRupiv.Sandbox
