import UioLinuxSample.Lib.Arena

set_option autoImplicit false

/-! # What the tracers see of the kernel

The parts of the kernel the three tracers of `trace/` read: task descriptors with their command
names, the register frame of an interrupt, and the stack savers behind `store_stack_trace`,
which `trace_irqoff.c` and `trace_noschedule.c` have in two copies of the same text.

The kernel is 64-bit: `u64` and `unsigned long` are `UInt64`, `sizeof(void *)` is `8`. Array
indices and counters are `Nat`; where the source lets an `unsigned int` wrap, the wrap is
written out.
-/

namespace UioLinuxSample

/-! ## Tasks -/

/-- `TASK_COMM_LEN`. -/
def taskCommLen : Nat := 16

/-- The command name of a task: at most `TASK_COMM_LEN - 1` bytes before the terminator. -/
structure Comm where
  bytes : List UInt8
  length_lt : bytes.length < taskCommLen
  no_nul : 0 ∉ bytes
  deriving DecidableEq

/-- The empty name, what zeroed memory reads as. -/
def Comm.empty : Comm := ⟨[], by decide, by simp⟩

/-- The first `n` bytes of a name. -/
def Comm.take (c : Comm) (n : Nat) : Comm where
  bytes := c.bytes.take n
  length_lt := Nat.lt_of_le_of_lt (List.length_take_le' n c.bytes) c.length_lt
  no_nul := fun h => c.no_nul (List.mem_of_mem_take h)

theorem Comm.take_of_le (c : Comm) {n : Nat} (h : taskCommLen ≤ n + 1) : c.take n = c := by
  have hlen := c.length_lt
  simp only [Comm.take, List.take_of_length_le (show c.bytes.length ≤ n by omega)]

/-- `strlcpy(dst, src, size)` keeps one byte of `dst` for the terminator. -/
def strlcpy (src : Comm) (size : Nat) : Comm := src.take (size - 1)

/-- `strncpy(dst, src, size)`. -/
def strncpy (src : Comm) (size : Nat) : Comm := src.take size

/-- A buffer of `TASK_COMM_LEN` bytes holds every command name. -/
@[simp] theorem strlcpy_taskCommLen (c : Comm) : strlcpy c taskCommLen = c :=
  c.take_of_le (by decide)

/-- `TASK_RUNNING`. -/
def taskRunning : Nat := 0

/-- The fields of a `task_struct` that the tracers read. -/
structure TaskStruct where
  pid : Int
  comm : Comm
  /-- `is_idle_task(p)` -/
  idle : Bool
  state : Nat
  /-- `task_cpu(p)` -/
  cpu : Int
  deriving DecidableEq

/-- The register frame `get_irq_regs()` points to. -/
structure PtRegs where
  userMode : Bool
  deriving DecidableEq

/-- `single_task_running()` on a CPU with `nrRunning` runnable tasks. -/
def singleTaskRunning (nrRunning : Nat) : Bool := nrRunning == 1

/-- The error codes the tracers return. -/
inductive Errno where
  | eperm
  | enoent
  | eagain
  | enomem
  | eexist
  | einval
  deriving DecidableEq

/-- The number behind an error code. -/
def Errno.code : Errno → Int
  | .eperm => 1
  | .enoent => 2
  | .eagain => 11
  | .enomem => 12
  | .eexist => 17
  | .einval => 22

/-! ## Stack traces -/

/-- `ULONG_MAX`. -/
def ulongMax : UInt64 := 0xFFFFFFFFFFFFFFFF

/-- The kernel a tracer is built for and loaded into: whether `LINUX_VERSION_CODE` is below
5.1 (the `struct stack_trace` interface), and whether `kallsyms_lookup_name` found the saver
that starts from a register frame. -/
structure Kernel where
  structApi : Bool
  regsSaver : Bool

/-- What the two stack savers would store, without a limit, at one moment. -/
structure Unwound where
  fromRegs : List UInt64
  fromHere : List UInt64

/-- `struct stack_entry` and `struct irqoff_trace`. The pointer is an offset into the entry
array of the record buffer, `none` for `NULL`. -/
structure StackEntry where
  nrEntries : Nat
  entries : Option Nat
  deriving DecidableEq

def StackEntry.zero : StackEntry := ⟨0, none⟩

/-- The cells a stack entry points to. -/
def StackEntry.slice (e : StackEntry) : Slice := ⟨e.entries.getD 0, e.nrEntries⟩

/-- The words a stack saver stores when it is given room for `maxEntries`. -/
def Kernel.saved (k : Kernel) (regs : Option PtRegs) (u : Unwound) (maxEntries : Nat) :
    List UInt64 :=
  (if regs.isSome && k.regsSaver then u.fromRegs else u.fromHere).take maxEntries

/-- `store_stack_trace(regs, trace, entries, max_entries, skip)`, where `entries` is the cell
`off` of the array `mem`: the entry it fills in and the array after the call. -/
def storeStackTrace (k : Kernel) (regs : Option PtRegs) (u : Unwound) (mem : Nat → UInt64)
    (off maxEntries : Nat) : StackEntry × (Nat → UInt64) :=
  let words := k.saved regs u maxEntries
  let mem' := blit mem off words
  let nrEntries := words.length
  if k.structApi && nrEntries != 0 && mem' (off + nrEntries - 1) == ulongMax then
    (⟨nrEntries - 1, some off⟩, mem')
  else
    (⟨nrEntries, some off⟩, mem')

/-- `seq_print_stack_trace`: the words printed for an entry. -/
def seqPrintStackTrace (mem : Nat → UInt64) (e : StackEntry) : List UInt64 :=
  if e.entries.isNone then [] else readCells mem e.slice

/-! ### What a save captures -/

/-- The stack a save publishes: the words the saver stored, less the end marker that the
`struct stack_trace` interface may leave. -/
def Kernel.captured (k : Kernel) (regs : Option PtRegs) (u : Unwound) (maxEntries : Nat) :
    List UInt64 :=
  let words := k.saved regs u maxEntries
  if k.structApi && words.getLast? == some ulongMax then words.dropLast else words

theorem Kernel.saved_length_le (k : Kernel) (regs : Option PtRegs) (u : Unwound) (n : Nat) :
    (k.saved regs u n).length ≤ n :=
  List.length_take_le _ _

theorem Kernel.captured_length_le_saved (k : Kernel) (regs : Option PtRegs) (u : Unwound)
    (n : Nat) : (k.captured regs u n).length ≤ (k.saved regs u n).length := by
  unfold Kernel.captured
  dsimp only
  split
  · rw [List.length_dropLast]; omega
  · exact Nat.le_refl _

theorem Kernel.captured_length_le (k : Kernel) (regs : Option PtRegs) (u : Unwound) (n : Nat) :
    (k.captured regs u n).length ≤ n :=
  Nat.le_trans (k.captured_length_le_saved regs u n) (k.saved_length_le regs u n)

/-- The captured stack is a prefix of the stored words. -/
theorem Kernel.saved_take_captured (k : Kernel) (regs : Option PtRegs) (u : Unwound) (n : Nat) :
    (k.saved regs u n).take (k.captured regs u n).length = k.captured regs u n := by
  unfold Kernel.captured
  dsimp only
  split
  · rw [List.length_dropLast, List.dropLast_eq_take]
  · exact List.take_length

/-- The last stored word, read back through the array. -/
private theorem blit_last (mem : Nat → UInt64) (off : Nat) {words : List UInt64}
    (h : words.length ≠ 0) :
    some (blit mem off words (off + words.length - 1)) = words.getLast? := by
  have hlt : words.length - 1 < words.length := by omega
  rw [show off + words.length - 1 = off + (words.length - 1) by omega, blit_add _ _ _ hlt,
    List.getLast?_eq_getElem?, List.getElem?_eq_getElem hlt]

/-- **`store_stack_trace` publishes what the saver captured.** Its marker test, which reads the
array it has just written, is a test of the last stored word. -/
theorem storeStackTrace_eq (k : Kernel) (regs : Option PtRegs) (u : Unwound)
    (mem : Nat → UInt64) (off n : Nat) :
    storeStackTrace k regs u mem off n
      = (⟨(k.captured regs u n).length, some off⟩, blit mem off (k.saved regs u n)) := by
  unfold storeStackTrace Kernel.captured
  dsimp only
  by_cases h0 : (k.saved regs u n).length = 0
  · have hnil : k.saved regs u n = [] := List.length_eq_zero_iff.mp h0
    simp [hnil]
  · have hlast := blit_last mem off h0
    by_cases hm : blit mem off (k.saved regs u n) (off + (k.saved regs u n).length - 1) = ulongMax
    · rw [hm] at hlast
      cases hk : k.structApi <;> simp [hm, h0, ← hlast]
    · have hne : (k.saved regs u n).getLast? ≠ some ulongMax := by
        rw [← hlast]
        simpa using hm
      simp [hm, hne]

end UioLinuxSample
