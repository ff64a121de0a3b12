import SoKernel.Kernel.ModuleLoader
import SoKernel.Process.Creation

/-!
# System calls

This module models the rest of {lit}`syscall/syscall.c`, from {lit}`sys_exec` to the
dispatcher, and the assembly stub {lit}`syscall_handler_128` around it.

The kernel reads an exec path through the loaded page directory.  Below 3 GB this is
the address space of the caller; the bytes that the kernel's own addresses show are a
parameter.  A read of an address that is not mapped faults, and the kernel does not
come back from a fault: the call then has no result.

{lit}`sys_exit` does not return when no process is ready; the kernel is then idle.
-/

namespace SoKernel

/-- {lit}`(uint32_t)-1`. -/
def minusOne : Nat :=
  0xFFFFFFFF

/-! ## Reading a path -/

namespace Memory

/-- The physical address behind a user address under the loaded page directory. -/
def translate (m : Memory) (va : Nat) : Option Nat :=
  let pde := m.phys.word (m.cr3 / 4096) (va / 2 ^ 22)
  if present pde then
    let pte := m.phys.word (pde / 4096) (va / 2 ^ 12 % 1024)
    if present pte then some (4096 * (pte / 4096) + va % 4096) else none
  else none

/-- The byte that the kernel reads at a virtual address. -/
def readVirtual (m : Memory) (kernelByte : Nat → Option UInt8) (va : Nat) : Option UInt8 :=
  if va < 0xC0000000 then (m.translate va).map m.phys else kernelByte va

end Memory

/-- {lit}`EXEC_PATH_MAX`. -/
def execPathMax : Nat :=
  64

/-- The loop of {lit}`copy_user_string`: the bytes before the terminator, at most
{lit}`n`. -/
def copyUserBytes (read : Nat → Option UInt8) : Nat → Nat → Option (List UInt8)
  | 0, _ => some []
  | n + 1, ptr =>
      match read ptr with
      | none => none
      | some c => if c = 0 then some [] else (copyUserBytes read n (u32 (ptr + 1))).map (c :: ·)

/-- {lit}`copy_user_string`; the inner {lit}`none` is its error code. -/
def copyUserString (read : Nat → Option UInt8) (userPtr maxLen : Nat) :
    Option (Option (List UInt8)) :=
  if userPtr = 0 ∨ maxLen = 0 then some none
  else (copyUserBytes read maxLen userPtr).map fun text => some (text.take (maxLen - 1))

namespace Kernel

/-! ## The calls -/

/-- The control block of the caller after {lit}`exec`. -/
def execPcb (b : Pcb) (image : Memory.Image) : Pcb :=
  { b with
    pdt := image.pdt
    eip := image.entry
    esp := image.userEsp
    eflags := b.eflags ||| 0x200
    cs := 0x1B
    ss := 0x23
    state := .ready }

/-- The frame of the caller after {lit}`exec`. -/
def execFrame (frame : SyscallFrame) (image : Memory.Image) : SyscallFrame :=
  { frame with
    eip := image.entry
    userEsp := image.userEsp
    cs := 0x1B
    userSs := 0x23
    eflags := frame.eflags ||| 0x200 }

/-- {lit}`sys_exec`, for a path that has been read and found. -/
def execModule (k : Kernel) (frame : SyscallFrame) (modStart modEnd : Nat) :
    Nat × Kernel × SyscallFrame :=
  let pcb := k.sched.currentPcb
  if pcb = 0 then (minusOne, k, frame)
  else
    match k.store.mem.buildNewImage modStart modEnd with
    | (none, m) => (minusOne, k.withMem m, frame)
    | (some image, m) =>
        let oldPdt := (k.pcbs pcb).pdt
        let k := (k.withMem m).setPcb pcb (execPcb (k.pcbs pcb) image)
        let k := k.withMem ((k.store.mem.updateCr3 image.pdt).destroyUserSpace oldPdt)
        (0, k.logProcessStat (k.pcbs pcb).pid .created .exec, execFrame frame image)

/-- {lit}`sys_exec`. -/
def sysExec (k : Kernel) (kernelByte : Nat → Option UInt8) (frame : SyscallFrame) :
    Option (Nat × Kernel × SyscallFrame) :=
  match copyUserString (k.store.mem.readVirtual kernelByte) frame.ebx execPathMax with
  | none => none
  | some none => some (minusOne, k, frame)
  | some (some path) =>
      match moduleLoaderFindModuleByPath k.modules path with
      | none => some (minusOne, k, frame)
      | some (modStart, modEnd) => some (k.execModule frame modStart modEnd)

/-- {lit}`save_context_from_syscall_frame`. -/
def saveContextFromSyscallFrame (frame : SyscallFrame) : ProcessContext where
  ebp := frame.ebp
  edi := frame.edi
  esi := frame.esi
  edx := frame.edx
  ecx := frame.ecx
  ebx := frame.ebx
  eax := frame.eax
  eip := frame.eip
  cs := frame.cs
  eflags := frame.eflags
  userEsp := frame.userEsp
  userSs := frame.userSs

/-- The child's control block as {lit}`sys_fork` first fills it in. -/
def childPcb (parent : Pcb) (childPid : Nat) : Pcb :=
  { parent with
    pid := childPid
    ppid := parent.pid
    state := .ready
    kernelStackBase := 0
    kernelEsp0 := 0
    pdt := 0 }

/-- The child's control block when it has its address space and its kernel stack. -/
def childReady (child : Pcb) (frame : SyscallFrame) (childPdt : Nat) : Pcb :=
  { child with
    pdt := childPdt
    eip := frame.eip
    esp := frame.userEsp
    eflags := frame.eflags
    cs := frame.cs
    ss := frame.userSs
    context := { saveContextFromSyscallFrame frame with eax := 0 } }

/-- {lit}`kfree` on the whole kernel. -/
def release (k : Kernel) (ptr : Nat) : Kernel :=
  { k with store := k.store.kfree ptr }

/-- The last part of {lit}`sys_fork`: the child is complete and goes to the ready queue. -/
def forkEnqueue (k : Kernel) (frame : SyscallFrame) (child childPid childPdt : Nat) :
    Nat × Kernel :=
  let k := k.setPcb child (childReady (k.pcbs child) frame childPdt)
  match k.schedulerEnqueueReady child with
  | none =>
      let k := k.release (k.pcbs child).kernelStackBase
      (minusOne, (k.withMem (k.store.mem.destroyUserSpace childPdt)).release child)
  | some k =>
      let k := k.logProcessStat (k.pcbs child).pid .created .fork
      (childPid, { k with forked := k.forked ++ [child] })

/-- The part of {lit}`sys_fork` from the kernel stack on. -/
def forkStack (L : Layout) (k : Kernel) (frame : SyscallFrame) (child childPid childPdt : Nat) :
    Nat × Kernel :=
  let (ok, k) := k.allocKernelStack L child
  if ok = false then
    (minusOne, (k.withMem (k.store.mem.destroyUserSpace childPdt)).release child)
  else k.forkEnqueue frame child childPid childPdt

/-- The part of {lit}`sys_fork` from the copy of the address space on. -/
def forkSpace (L : Layout) (k : Kernel) (frame : SyscallFrame) (child childPid : Nat) :
    Nat × Kernel :=
  let (childPdt, m) := k.store.mem.cloneUserSpace k.current.pdt
  let k := k.withMem m
  if childPdt = 0 then (minusOne, k.release child)
  else k.forkStack L frame child childPid childPdt

/-- {lit}`sys_fork`. -/
def sysFork (L : Layout) (k : Kernel) (frame : SyscallFrame) : Nat × Kernel :=
  let parent := k.sched.currentPcb
  if parent = 0 then (minusOne, k)
  else
    let (child, store) := k.store.kmalloc L sizeofPcb
    let k := { k with store := store }
    if child = 0 then (minusOne, k)
    else
      let (childPid, k) := k.schedulerAllocatePid
      let k := k.setPcb child (childPcb (k.pcbs parent) childPid)
      k.forkSpace L frame child childPid

/-- {lit}`sys_yield`. -/
def sysYield (k : Kernel) (frame : SyscallFrame) : Nat × Kernel × SyscallFrame :=
  let (code, k, context) :=
    k.schedulerScheduleFromContext (ProcessContext.ofWords frame.words) true .yield
  let frame := SyscallFrame.ofWords context.words
  if code < 0 then (minusOne, k, frame) else (frame.eax, k, frame)

/-- {lit}`log_process_exit`. -/
def logProcessExit (k : Kernel) (pid : Nat) : Kernel :=
  k.logProcessStat pid .terminated .exit

/-- The first part of {lit}`sys_exit`: the current process is marked and its end logged. -/
def markTerminated (k : Kernel) : Kernel :=
  let current := k.sched.currentPcb
  let k := k.setPcb current { k.pcbs current with state := .terminated }
  k.logProcessExit (k.pcbs current).pid

/-- {lit}`sys_exit`; the kernel is idle when the call does not return. -/
def sysExit (k : Kernel) (frame : SyscallFrame) : Nat × Kernel × SyscallFrame :=
  let current := k.sched.currentPcb
  if current = 0 then (minusOne, k, frame)
  else
    let k := k.markTerminated
    let oldPdt := (k.pcbs current).pdt
    let (code, k, context) :=
      k.schedulerScheduleFromContext (ProcessContext.ofWords frame.words) false .exit
    let frame := SyscallFrame.ofWords context.words
    if code > 0 then
      let k := k.withMem (k.store.mem.destroyUserSpace oldPdt)
      (frame.eax, { k with exited := k.exited ++ [current] }, frame)
    else (frame.eax, { k with idle := true }, frame)

/-- {lit}`syscall_dispatcher`. -/
def syscallDispatcher (L : Layout) (k : Kernel) (kernelByte : Nat → Option UInt8)
    (syscallNumber : Nat) (frame : SyscallFrame) : Option (Nat × Kernel × SyscallFrame) :=
  match syscallNumber with
  | 0 => some (0, k, frame)
  | 1 => some (0, k, frame)
  | 2 => k.sysExec kernelByte frame
  | 3 =>
      let (r, k) := k.sysFork L frame
      some (r, k, frame)
  | 4 => some (k.sysYield frame)
  | 5 => some (k.sysExit frame)
  | _ => some (minusOne, k, frame)

/-- {lit}`syscall_handler_128`: the result goes to the saved {lit}`eax`. -/
def syscallHandler128 (L : Layout) (k : Kernel) (kernelByte : Nat → Option UInt8)
    (frame : SyscallFrame) : Option (Kernel × SyscallFrame) :=
  (k.syscallDispatcher L kernelByte frame.eax frame).map fun (r, k, frame) =>
    (k, { frame with eax := r })

end Kernel

end SoKernel
