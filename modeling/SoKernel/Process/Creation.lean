import SoKernel.Scheduler.Schedule
import SoKernel.Syscall.UserSpace

/-!
# Processes created at boot

This module models {lit}`process/process.c`.  The functions of this file do not look
at the result of {lit}`pfa_alloc`, apart from the page directory: when the frames run
out they go on with frame 0.

The module is read through the identity mapping of the first 4 MB; a read above it
faults, and the kernel does not come back from a fault.
-/

namespace SoKernel

namespace Memory

/-- {lit}`alloc_page_table`. -/
def allocPageTable (m : Memory) : Nat × Memory :=
  let (ptPhys, m) := m.pfaAlloc
  (ptPhys, m.zeroTable ptPhys)

/-- {lit}`alloc_page_frames`. -/
def allocPageFrames (m : Memory) (ptPhys : Nat) : Memory :=
  let (frame0, m) := m.pfaAlloc
  let (frame1, m) := m.pfaAlloc
  let (p, m) := m.pagingTempMap ptPhys
  let m := m.writeWord p 0 (frame0 ||| 7)
  let m := m.writeWord p 1 (frame1 ||| 7)
  m.pagingTempUnmap

/-- The copy of {lit}`copy_module`: the first bytes come from the module, the others
are zero. -/
def copyBytes (m : Memory) (pageFrame1 modStart size : Nat) : Memory :=
  let (p, m) := m.pagingTempMap pageFrame1
  let m := forRange size (fun i m => m.writeByte p i (m.phys (modStart + i))) m
  let m := forRange (4096 - size) (fun i m => m.writeByte p (size + i) 0) m
  m.pagingTempUnmap

/-- {lit}`copy_module`; a read above 4 MB faults. -/
def copyModule (m : Memory) (pageFrame1 modStart modEnd : Nat) : Option Memory :=
  let size := u32 (modEnd + 2 ^ 32 - modStart)
  let size := if size > 4096 then 4096 else size
  if 0 < size ∧ modStart + size > 0x400000 then none
  else some (m.copyBytes pageFrame1 modStart size)

/-- {lit}`alloc_stack`. -/
def allocStack (m : Memory) (pdtPhys : Nat) : Memory :=
  let pdIndex := 0xBFFFF000 / 2 ^ 22
  let ptIndex := 0xBFFFF000 / 2 ^ 12 % 1024
  let (ptPhys, m) := m.allocPageTable
  let (stackFrame, m) := m.pfaAlloc
  let m := m.pokeWord ptPhys ptIndex (stackFrame ||| 7)
  m.pokeWord pdtPhys pdIndex (ptPhys ||| 7)

/-- The address space that {lit}`create_pcb_grub_modules` builds behind a new directory. -/
def loadModule (m : Memory) (pdtPhys modStart modEnd : Nat) : Option Memory :=
  let (ptPhys, m) := m.allocPageTable
  let m := m.pokeWord pdtPhys 0 (ptPhys ||| 7)
  let m := m.allocPageFrames ptPhys
  let (pte, m) := m.peekWord ptPhys 0
  (m.copyModule (frameBits pte) modStart modEnd).map fun m => m.allocStack pdtPhys

end Memory

namespace Kernel

/-- The memory of the kernel replaced. -/
def withMem (k : Kernel) (m : Memory) : Kernel :=
  { k with store := { k.store with mem := m } }

/-- {lit}`alloc_kernel_stack` and {lit}`alloc_process_kernel_stack`: a cleared block and
the pointers to it in the control block; {lit}`none` without memory. -/
def allocKernelStack (L : Layout) (k : Kernel) (pcb : Nat) : Bool × Kernel :=
  let (kstack, store) := k.store.kmalloc L kernelStackSize
  let k := { k with store := store }
  if kstack = 0 then (false, k)
  else
    let k := { k with store := { k.store with heap := k.store.heap.zeroBytes kstack 4096 } }
    (true, k.setPcb pcb { k.pcbs pcb with
      kernelStackBase := kstack
      kernelEsp0 := u32 (kstack + 4096 - 4) })

/-- The control block that {lit}`create_pcb` fills in before it has a kernel stack. -/
def freshPcb (pid pdt : Nat) : Pcb where
  pid := pid
  ppid := 0
  pdt := pdt
  eip := 0
  esp := 0
  eflags := 0x200
  cs := 0x1B
  ss := 0x23
  kernelStackBase := 0
  kernelEsp0 := 0
  state := .ready
  burstTime := 0
  predictedBurst := 1
  lastDispatchTick := 0
  context := ⟨0, 0, 0, 0, 0, 0, 0, 0, 0, 0, 0, 0⟩

/-- The last part of {lit}`create_pcb`: the kernel stack. -/
def createStack (L : Layout) (k : Kernel) (pcb pdtPhys : Nat) : Nat × Kernel :=
  let (ok, k) := k.allocKernelStack L pcb
  if ok = false then
    let k := k.withMem (k.store.mem.pfaFree pdtPhys)
    (0, { k with store := k.store.kfree pcb })
  else (pcb, k)

/-- The part of {lit}`create_pcb` from the page directory on. -/
def createSpace (L : Layout) (k : Kernel) (pcb pid : Nat) : Nat × Kernel :=
  let (pdtPhys, m) := k.store.mem.allocPageTable
  let k := k.withMem m
  if pdtPhys = 0 then (0, { k with store := k.store.kfree pcb })
  else
    let k := k.withMem (k.store.mem.pokeWord pdtPhys 768 (k.store.mem.pageDirectory 768))
    let k := k.setPcb pcb (freshPcb pid pdtPhys)
    k.createStack L pcb pdtPhys

/-- {lit}`create_pcb`; 0 on failure. -/
def createPcb (L : Layout) (k : Kernel) : Nat × Kernel :=
  let (pcb, store) := k.store.kmalloc L sizeofPcb
  let k := { k with store := store }
  if pcb = 0 then (0, k)
  else
    let (pid, k) := k.schedulerAllocatePid
    k.createSpace L pcb pid

/-- {lit}`create_pcb_grub_modules`; {lit}`none` when reading the module faults. -/
def createPcbGrubModules (L : Layout) (k : Kernel) (modStart modEnd : Nat) : Option (Nat × Kernel) :=
  let (pcb, k) := k.createPcb L
  if pcb = 0 then some (0, k)
  else
    (k.store.mem.loadModule (k.pcbs pcb).pdt modStart modEnd).map fun m =>
      (pcb, (k.withMem m).setPcb pcb { k.pcbs pcb with esp := 0xBFFFFFFB })

/-- {lit}`run_user_mode_module`, up to the jump to user mode. -/
def runUserModeModule (k : Kernel) (pcb : Nat) : Kernel :=
  if pcb = 0 then k
  else
    let k := k.withMem (k.store.mem.updateCr3 (k.pcbs pcb).pdt)
    let k := { k with tssEsp0 := (k.pcbs pcb).kernelEsp0 }
    let k := k.schedulerSetCurrent pcb
    k.setPcb pcb { k.pcbs pcb with state := .running }

end Kernel

end SoKernel
