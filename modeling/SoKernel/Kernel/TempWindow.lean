import SoKernel.Kernel.BootInvariant

/-!
# One temporary window

All directories, tables and pages are reached through entry 1023 of the kernel page table, from
a dozen functions that call each other.  In the runs of the kernel every access through it finds
the frame that it was opened for, the heap does not grow into its place, and it is closed again
when a call comes back.

When reading a module faults, {lit}`create_pcb_grub_modules` does not come back; the memory at
the fault is a definition of its own.

Main results:

- Theorem {lit}`loadUntilFault_stray`: the window at a fault is open on the frame that is being
  written.
- Theorem {lit}`one_window_is_enough`: the window along boot and along every run.
-/

namespace SoKernel

namespace Memory

variable {m : Memory} {d : Nat}

/-- Every access through the window found the frame that it was opened for, the heap did not
grow into its place, and it is closed. -/
structure WindowKept (m : Memory) : Prop where
  accesses : m.strayAccess = false
  closed : m.WindowClosed

/-- The copy of {lit}`copy_module` up to the first read above the identity mapping. -/
def copyUntilFault (m : Memory) (pageFrame1 modStart : Nat) : Memory :=
  let (p, m) := m.pagingTempMap pageFrame1
  forRange (0x400000 - modStart) (fun i m => m.writeByte p i (m.phys (modStart + i))) m

/-- The memory at the fault, behind a new directory. -/
def loadUntilFault (m : Memory) (pdtPhys modStart : Nat) : Memory :=
  let (pageFrame1, m) := m.loadTable pdtPhys
  m.copyUntilFault pageFrame1 modStart

/-- The writes before the fault go to the frame that the window is open on. -/
theorem loadUntilFault_stray (hok : MemOk m) (hd : d < 2 ^ 20) (modStart : Nat) :
    (m.loadUntilFault (4096 * d) modStart).strayAccess = m.strayAccess := by
  obtain ⟨a, b, c, p, hdraw, htable⟩ := loadTable_eq hok hd
  have hb := Drawn.lt hok hdraw b (by simp)
  simp only [loadUntilFault, htable, copyUntilFault, pagingTempMap_eq _ hb]
  -- The bytes change along the loop, the window does not.
  have hloop : ∃ phys, forRange (0x400000 - modStart)
      (fun i mm => mm.writeByte ⟨4096 * b⟩ i (mm.phys (modStart + i)))
      (({ m with pfa := p, phys := tablePhys m.phys d a b c } : Memory).opened b) =
        ({ m with pfa := p, phys := phys } : Memory).opened b := by
    refine forRange_induct (fun _ (mm : Memory) =>
      ∃ phys, mm = ({ m with pfa := p, phys := phys } : Memory).opened b) ⟨_, rfl⟩ ?_
    rintro i hi mm ⟨phys, rfl⟩
    rw [opened_writeByte _ hb]
    exact ⟨_, rfl⟩
  obtain ⟨phys, hphys⟩ := hloop
  rw [hphys]
  rfl

end Memory

theorem StoreOk.windowKept {L : Layout} {R : Nat → Prop} {safe : Prop} {s : Store} {ds : List Nat}
    (h : StoreOk L R safe s ds) : s.mem.WindowKept :=
  ⟨h.stray, h.spaces.ok.closed⟩

namespace Kernel

variable {L : Layout} {B : BootInfo} {R : Nat → Prop} {safe : Prop} {k : Kernel}

/-- The memory when {lit}`create_pcb_grub_modules` faults. -/
def faultMemory (L : Layout) (k : Kernel) (modStart : Nat) : Memory :=
  let (pcb, k) := k.createPcb L
  k.store.mem.loadUntilFault (k.pcbs pcb).pdt modStart

theorem Inv.windowKept (h : Inv L R safe k) : k.store.mem.WindowKept :=
  h.holding.store.windowKept

/-- {lit}`create_pcb_grub_modules` when it comes back. -/
theorem grub_windowKept {c : Nat} {bs : List (Nat × Nat)} {ds : List Nat}
    (h : Holding L R (Plenty k.store) c bs ds k.store) {modStart modEnd pcb : Nat} {k' : Kernel}
    (hrun : k.createPcbGrubModules L modStart modEnd = some (pcb, k')) :
    k'.store.mem.WindowKept := by
  have hspec := createPcbGrubModules_spec h modStart modEnd
  rw [hrun] at hspec
  cases hspec with
  | failed hold beside short fails => exact hold.store.windowKept
  | made made => exact made.hold.store.windowKept

/-- {lit}`create_pcb_grub_modules` when it faults. -/
theorem grub_faultMemory {c : Nat} {bs : List (Nat × Nat)} {ds : List Nat}
    (h : Holding L R (Plenty k.store) c bs ds k.store) {modStart modEnd : Nat}
    (hrun : k.createPcbGrubModules L modStart modEnd = none) :
    (k.faultMemory L modStart).strayAccess = false := by
  have hspec := createPcb_spec h
  unfold createPcbGrubModules at hrun
  unfold faultMemory
  generalize k.createPcb L = r at hspec hrun ⊢
  cases hspec with
  | failed hold beside short fails =>
      simp only [if_true] at hrun
      cases hrun
  | @made k' pcb d base pcb_ne fresh hold beside pcb_eq =>
      have hspaces := hold.store.spaces
      have hd := (hspaces.ok.managed (hspaces.owned List.mem_cons_self
        (hspaces.dir_owned List.mem_cons_self)).2.1).2
      have hpdt : (k'.pcbs pcb).pdt = 4096 * d := by
        rw [pcb_eq]
        rfl
      simp only [hpdt]
      exact (Memory.loadUntilFault_stray hspaces.ok hd modStart).trans hold.store.stray

/-- The calls of a running process. -/
theorem Inv.calls_windowKept (h : Inv L R safe k) (frame : SyscallFrame)
    (kernelByte : Nat → Option UInt8) :
    (k.sysFork L frame).2.store.mem.WindowKept ∧
      (∀ r, k.sysExec kernelByte frame = some r → r.2.1.store.mem.WindowKept) ∧
      (k.sysExit frame).2.1.store.mem.WindowKept := by
  refine ⟨?_, fun r hrun => (h.sysExec hrun).windowKept, ?_⟩
  · have hspec := sysFork_spec h frame
    generalize k.sysFork L frame = r at hspec ⊢
    cases hspec with
    | failed inv => exact inv.windowKept
    | forked inv => exact inv.windowKept
  · have hspec := sysExit_spec h frame
    generalize k.sysExit frame = r at hspec ⊢
    cases hspec with
    | switched inv => exact inv.windowKept
    | idle inv => exact inv.windowKept

/-- One window is enough: for the process of each module at boot, and for every call of a running
process. -/
theorem one_window_is_enough (L : Layout) (B : BootInfo) :
    (∀ before mod after first k, B.mods = before ++ mod :: after →
        before.foldlM (bootModule L) (0, bootKernel L B) = some (first, k) →
      (∀ pcb k', k.createPcbGrubModules L mod.modStart mod.modEnd = some (pcb, k') →
        k'.store.mem.WindowKept) ∧
      (k.createPcbGrubModules L mod.modStart mod.modEnd = none →
        (k.faultMemory L mod.modStart).strayAccess = false)) ∧
    ∀ k₀ k, kmain L B = some k₀ → Reachable L k₀ k →
      ∀ (frame : SyscallFrame) (kernelByte : Nat → Option UInt8),
        (k.sysFork L frame).2.store.mem.WindowKept ∧
          (∀ r, k.sysExec kernelByte frame = some r → r.2.1.store.mem.WindowKept) ∧
          (k.sysExit frame).2.1.store.mem.WindowKept := by
  constructor
  · intro before mod after first k hmods hloop
    have hlength : before.length ≤ B.mods.length := by
      rw [hmods, List.length_append]
      omega
    have hbooting := (booting_start L B).loop (by omega) hloop
    exact ⟨fun pcb k' hrun => grub_windowKept hbooting.holding hrun,
      fun hrun => grub_faultMemory hbooting.holding hrun⟩
  · intro k₀ k hboot hk frame kernelByte
    exact ((kmain_inv hboot).reachable hk).calls_windowKept frame kernelByte

/-- One module: its process is made, and then it forks, calls exec and exits. -/
theorem one_window_is_enough_one_module :
    ∃ pcb k' k₀, (bootKernel sampleLayout (sampleBoot 1 (by decide) .fcfs)).createPcbGrubModules
        sampleLayout (sampleModule 0).modStart (sampleModule 0).modEnd = some (pcb, k') ∧
      kmain sampleLayout (sampleBoot 1 (by decide) .fcfs) = some k₀ ∧
      k'.store.mem.WindowKept ∧
      (k₀.sysFork sampleLayout (sampleCall 3)).2.store.mem.WindowKept ∧
      (k₀.sysExit (sampleCall 5)).2.1.store.mem.WindowKept := by
  obtain ⟨k₀, hboot, -⟩ := sampleBoot_runs (show 0 < 1 by decide) (by decide) .fcfs
  obtain ⟨hgrub, hcalls⟩ :=
    one_window_is_enough sampleLayout (sampleBoot 1 (by decide) .fcfs)
  have hmods : (sampleBoot 1 (by decide) .fcfs).mods = sampleModule 0 :: [] := rfl
  obtain ⟨pcb, k', hmade⟩ := kmain_first_call hboot hmods
  refine ⟨pcb, k', k₀, hmade, hboot, ?_, ?_, ?_⟩
  · exact (hgrub [] (sampleModule 0) [] 0 _ hmods rfl).1 pcb k' hmade
  · exact (hcalls k₀ k₀ hboot .boot (sampleCall 3) fun _ => none).1
  · exact (hcalls k₀ k₀ hboot .boot (sampleCall 5) fun _ => none).2.2

end Kernel

end SoKernel
