import SoKernel.Library.RingBuffer
import SoKernel.Memory.KernelHeap

/-!
# The state of the kernel

This module has the data the kernel works on: saved register images and the
frames the interrupt stubs build, process control blocks, the static variables of
the scheduler, and the module table.  Control blocks live on the kernel heap; the
model keeps their contents in a table indexed by their address.

The fields {lit}`booted`, {lit}`dropped`, {lit}`forked` and {lit}`exited` of the kernel
state are history: they list the control blocks that boot dispatched or enqueued, that
boot made and could not enqueue, that successful forks made, and whose exit switched to
another process.
-/

namespace SoKernel

/-! ## Register images -/

/-- {lit}`struct process_context`. -/
structure ProcessContext where
  ebp : Nat
  edi : Nat
  esi : Nat
  edx : Nat
  ecx : Nat
  ebx : Nat
  eax : Nat
  eip : Nat
  cs : Nat
  eflags : Nat
  userEsp : Nat
  userSs : Nat
deriving DecidableEq

/-- {lit}`struct syscall_frame`. -/
structure SyscallFrame where
  ebp : Nat
  edi : Nat
  esi : Nat
  edx : Nat
  ecx : Nat
  ebx : Nat
  eax : Nat
  eip : Nat
  cs : Nat
  eflags : Nat
  userEsp : Nat
  userSs : Nat
deriving DecidableEq

/-- {lit}`struct pit_irq_frame`. -/
structure PitIrqFrame where
  ebp : Nat
  edi : Nat
  esi : Nat
  edx : Nat
  ecx : Nat
  ebx : Nat
  eax : Nat
  eip : Nat
  cs : Nat
  eflags : Nat
deriving DecidableEq

/-- {lit}`struct pit_irq_frame_user`. -/
structure PitIrqFrameUser where
  common : PitIrqFrame
  userEsp : Nat
  userSs : Nat
deriving DecidableEq

/-- The words of a saved context in memory order. -/
def ProcessContext.words (c : ProcessContext) : List Nat :=
  [c.ebp, c.edi, c.esi, c.edx, c.ecx, c.ebx, c.eax, c.eip, c.cs, c.eflags, c.userEsp, c.userSs]

/-- The words of a syscall frame in memory order. -/
def SyscallFrame.words (f : SyscallFrame) : List Nat :=
  [f.ebp, f.edi, f.esi, f.edx, f.ecx, f.ebx, f.eax, f.eip, f.cs, f.eflags, f.userEsp, f.userSs]

/-- The words of a timer frame taken from ring 3, in memory order. -/
def PitIrqFrameUser.words (f : PitIrqFrameUser) : List Nat :=
  [f.common.ebp, f.common.edi, f.common.esi, f.common.edx, f.common.ecx, f.common.ebx,
    f.common.eax, f.common.eip, f.common.cs, f.common.eflags, f.userEsp, f.userSs]

/-- The context that lies at an address holding the given words. -/
def ProcessContext.ofWords (w : List Nat) : ProcessContext where
  ebp := w.getD 0 0
  edi := w.getD 1 0
  esi := w.getD 2 0
  edx := w.getD 3 0
  ecx := w.getD 4 0
  ebx := w.getD 5 0
  eax := w.getD 6 0
  eip := w.getD 7 0
  cs := w.getD 8 0
  eflags := w.getD 9 0
  userEsp := w.getD 10 0
  userSs := w.getD 11 0

/-- The syscall frame that lies at an address holding the given words. -/
def SyscallFrame.ofWords (w : List Nat) : SyscallFrame where
  ebp := w.getD 0 0
  edi := w.getD 1 0
  esi := w.getD 2 0
  edx := w.getD 3 0
  ecx := w.getD 4 0
  ebx := w.getD 5 0
  eax := w.getD 6 0
  eip := w.getD 7 0
  cs := w.getD 8 0
  eflags := w.getD 9 0
  userEsp := w.getD 10 0
  userSs := w.getD 11 0

@[simp]
theorem ProcessContext.ofWords_words (c : ProcessContext) : ofWords c.words = c :=
  rfl

/-! ## Processes -/

/-- The values of {lit}`pcb->state`. -/
inductive ProcessState where
  | ready
  | running
  | blocked
  | terminated
deriving DecidableEq

/-- {lit}`struct PCB`. -/
structure Pcb where
  pid : Nat
  ppid : Nat
  pdt : Nat
  eip : Nat
  esp : Nat
  eflags : Nat
  cs : Nat
  ss : Nat
  kernelStackBase : Nat
  kernelEsp0 : Nat
  state : ProcessState
  burstTime : Nat
  predictedBurst : Nat
  lastDispatchTick : Nat
  context : ProcessContext

/-- {lit}`sizeof(struct PCB)`: 14 words and a saved context. -/
def sizeofPcb : Nat :=
  104

/-- {lit}`PROCESS_KERNEL_STACK_SIZE`. -/
def kernelStackSize : Nat :=
  4096

/-! ## The scheduler -/

/-- The values of {lit}`scheduling_policy`. -/
inductive SchedulingPolicy where
  | fcfs
  | sjf
  | rr
deriving DecidableEq

/-- The event of a line of the STAT log. -/
inductive StatEvent where
  | created
  | scheduled
  | yielded
  | preempted
  | terminated
deriving DecidableEq

/-- The origin of a line of the STAT log. -/
inductive StatContext where
  | none
  | yield
  | pit
  | fork
  | exec
  | exit
deriving DecidableEq

/-- A line of the STAT log. -/
structure StatLine where
  pid : Nat
  ticks : Nat
  event : StatEvent
  context : StatContext
deriving DecidableEq

/-- {lit}`SCHEDULER_READY_QUEUE_CAPACITY`. -/
def readyQueueCapacity : Nat :=
  32

theorem readyQueueCapacity_pos : 0 < readyQueueCapacity := by
  decide

/-- The static variables of the scheduler. -/
structure Scheduler where
  currentPcb : Nat
  preemptionEnabled : Bool
  nextPid : Nat
  ready : RingBuffer Nat readyQueueCapacity
  schedulingPolicy : SchedulingPolicy
  quantumTicks : Nat
  remainingTicks : Nat

/-! ## The kernel -/

/-- {lit}`struct loaded_module`; the command line is the text before its terminator. -/
structure LoadedModule where
  modStart : Nat
  modEnd : Nat
  cmdline : List UInt8
deriving DecidableEq

/-- Everything the kernel works on. -/
structure Kernel where
  store : Store
  sched : Scheduler
  pcbs : Nat → Pcb
  tssEsp0 : Nat
  pitTicks : Nat
  modules : List LoadedModule
  statLog : List StatLine
  idle : Bool
  booted : List Nat
  dropped : List Nat
  forked : List Nat
  exited : List Nat

namespace Kernel

/-- The processes the scheduler knows: the current one and those in the ready queue. -/
def members (k : Kernel) : List Nat :=
  k.sched.currentPcb :: k.sched.ready.toList

/-- Update one control block. -/
def setPcb (k : Kernel) (p : Nat) (b : Pcb) : Kernel :=
  { k with pcbs := Function.update k.pcbs p b }

/-- The control block of the current process. -/
def current (k : Kernel) : Pcb :=
  k.pcbs k.sched.currentPcb

@[simp]
theorem setPcb_store (k : Kernel) (p : Nat) (b : Pcb) : (k.setPcb p b).store = k.store :=
  rfl

@[simp]
theorem setPcb_sched (k : Kernel) (p : Nat) (b : Pcb) : (k.setPcb p b).sched = k.sched :=
  rfl

theorem setPcb_pcbs (k : Kernel) (p : Nat) (b : Pcb) :
    (k.setPcb p b).pcbs = Function.update k.pcbs p b :=
  rfl

/-- {lit}`log_process_stat`. -/
def logProcessStat (k : Kernel) (pid : Nat) (event : StatEvent) (context : StatContext) : Kernel :=
  { k with statLog := k.statLog ++ [⟨pid, k.pitTicks, event, context⟩] }

end Kernel

end SoKernel
