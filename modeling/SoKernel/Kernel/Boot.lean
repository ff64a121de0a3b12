import SoKernel.Syscall.Dispatcher

/-!
# Boot

This module models {lit}`kernel/kmain.c`: the frame allocator is set up around the
modules, the kernel window is mapped page by page, and each module becomes a process.
The first process is dispatched, the others go to the ready queue.

The source fixes the policy and the quantum by two calls; they are parameters here.
Interrupts are off until the first process runs, so no tick is counted before.
-/

namespace SoKernel

/-- What the boot loader hands over, with the two scheduler settings of {lit}`kmain`.
The list of the modules, of 16 bytes each, lies in a 32-bit address space, and the modules
lie within the 64 MB that the kernel manages. -/
structure BootInfo where
  mods : List MultibootModule
  phys : ByteMemory
  kernelBytes : ByteMemory
  policy : SchedulingPolicy
  quantum : Nat
  mods_count : 16 * mods.length ≤ 2 ^ 32
  mods_hi : ∀ mod ∈ mods, mod.modStart < 2 ^ 26 ∧ mod.modEnd ≤ 2 ^ 26

/-- The allocator when all modules are reserved. -/
def bootPfa (L : Layout) (mods : List MultibootModule) : Pfa :=
  let memStart := pageAlignUp L.kernelPhysicalEnd
  let memEnd := 64 * 1024 * 1024
  match mods with
  | [] => Pfa.pfaInit memStart memEnd 0 0
  | mod :: rest =>
      rest.foldl (fun p mod => p.reserveRange mod.modStart mod.modEnd)
        (Pfa.pfaInit memStart memEnd mod.modStart mod.modEnd)

/-- The memory side of the kernel before the first process is created. -/
def bootStore (L : Layout) (B : BootInfo) : Store where
  mem := ({
      pfa := bootPfa L B.mods
      phys := B.phys
      kernelPageTable := fun _ => 0
      pageDirectory := fun i => if i = 0 ∨ i = 768 then 0x83 else 0
      cr3 := L.pageDirectoryPhys
      strayAccess := false
      destroyedLoaded := false } : Memory).pagingInit L.kernelPhysicalEnd L.kernelPageTablePhys
  heap := ({
      bytes := B.kernelBytes
      freep := 0
      heapCurrent := 0
      heapMax := 0
      hung := false
      live := [] } : Heap).kheapInit L

/-- {lit}`scheduler_set_quantum`: a quantum of 0 becomes 1. -/
def quantumOf (ticks : Nat) : Nat :=
  if ticks = 0 then 1 else ticks

/-- The kernel before the first process is created. -/
def bootKernel (L : Layout) (B : BootInfo) : Kernel where
  store := bootStore L B
  sched := {
    currentPcb := 0
    preemptionEnabled := true
    nextPid := 1
    ready := RingBuffer.empty readyQueueCapacity readyQueueCapacity_pos 0
    schedulingPolicy := B.policy
    quantumTicks := quantumOf B.quantum
    remainingTicks := quantumOf B.quantum }
  pcbs := fun _ => Kernel.freshPcb 0 0
  tssEsp0 := L.kernelStackTop
  pitTicks := 0
  modules := moduleLoaderSetModules B.mods
  statLog := []
  idle := false
  booted := []
  dropped := []
  forked := []
  exited := []

/-- One pass of the loop over the modules; the state has {lit}`first_pcb`. -/
def bootModule (L : Layout) (s : Nat × Kernel) (mod : MultibootModule) : Option (Nat × Kernel) :=
  match s.2.createPcbGrubModules L mod.modStart mod.modEnd with
  | none => none
  | some (pcb, k) =>
      if pcb = 0 then some (s.1, k)
      else if s.1 = 0 then some (pcb, { k with booted := k.booted ++ [pcb] })
      else
        let k := k.setPcb pcb { k.pcbs pcb with state := .ready }
        match k.schedulerEnqueueReady pcb with
        | none => some (s.1, { k with dropped := k.dropped ++ [pcb] })
        | some k => some (s.1, { k with booted := k.booted ++ [pcb] })

/-- {lit}`kmain` up to the jump to user mode; {lit}`none` when the kernel faults or has no
process to run. -/
def kmain (L : Layout) (B : BootInfo) : Option Kernel :=
  match B.mods.foldlM (bootModule L) (0, bootKernel L B) with
  | none => none
  | some (first, k) => if first = 0 then none else some (k.runUserModeModule first)

end SoKernel
