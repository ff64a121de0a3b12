import SoKernel.Interrupts.Timer
import SoKernel.Kernel.Boot

/-!
# The running system

After boot the current process runs in user mode until it traps: by a timer
interrupt or by {lit}`int 0x80`.  Between traps it may write the pages that its page
tables let it write.  A run is a sequence of such steps, with arbitrary register
images, paths and addresses.

A user write is a step only after a boot in which no allocation failed: a process that
boot gave frame 0 for a page table could write its own translation.
-/

namespace SoKernel

/-- What takes the processor from user mode to the kernel. -/
inductive Trap where
  | timer (frame : PitIrqFrameUser)
  | syscall (frame : SyscallFrame) (kernelByte : Nat → Option UInt8)

/-- The register image of the interrupted process. -/
def Trap.image : Trap → ProcessContext
  | .timer frame => frameUserToContext frame
  | .syscall frame _ => ProcessContext.ofWords frame.words

/-- An entry that lets user mode write. -/
def userWritable (e : Nat) : Bool :=
  e % 8 == 7

namespace Kernel

/-- The kernel's answer to a trap, with the register image that {lit}`iret` loads.  A
{lit}`syscall` frame comes from ring 3.  There is no answer when the kernel is idle or
faults. -/
def trap (L : Layout) (k : Kernel) : Trap → Option (Kernel × ProcessContext)
  | .timer frame =>
      if k.idle then none
      else
        let (k, frame) := k.timerInterruptHandler frame
        some (k, frameUserToContext frame)
  | .syscall frame kernelByte =>
      if k.idle ∨ frame.cs % 4 ≠ 3 then none
      else
        (k.syscallHandler128 L kernelByte frame).map fun (k, frame) =>
          (k, ProcessContext.ofWords frame.words)

/-- A write of the current process in user mode; a write that its page tables do not
allow is not a step. -/
def userWrite (k : Kernel) (va : Nat) (byte : UInt8) : Option Kernel :=
  let m := k.store.mem
  let pde := m.phys.word (m.cr3 / 4096) (va / 2 ^ 22)
  let pte := m.phys.word (pde / 4096) (va / 2 ^ 12 % 1024)
  if k.idle = false ∧ va < 2 ^ 32 ∧ userWritable pde ∧ userWritable pte then
    some (k.withMem { m with phys := Function.update m.phys (4096 * (pte / 4096) + va % 4096) byte })
  else none

end Kernel

/-- The states of the runs from {lit}`k₀`. -/
inductive Reachable (L : Layout) (k₀ : Kernel) : Kernel → Prop
  | boot : Reachable L k₀ k₀
  | trap {k k' : Kernel} {t : Trap} {out : ProcessContext} (hk : Reachable L k₀ k)
      (ht : k.trap L t = some (k', out)) : Reachable L k₀ k'
  | write {k k' : Kernel} {va : Nat} {byte : UInt8} (hk : Reachable L k₀ k)
      (hsafe : k₀.store.mem.pfa.exhausted = false) (hw : k.userWrite va byte = some k') :
      Reachable L k₀ k'

end SoKernel
