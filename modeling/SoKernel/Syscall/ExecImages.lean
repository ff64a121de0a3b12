import SoKernel.Kernel.BootInvariant

/-!
# What exec leaves behind

An exec that fails, for whatever reason, gives back every frame it has taken and leaves
the processes alone.

Main results:

- Theorem {lit}`failing_exec_changes_nothing`: a path that names no module, an empty module
  and every failed allocation end in a refusal that changes nothing.
-/

namespace SoKernel

namespace Memory

/-- The memory with the history of failed allocations erased. -/
def forget (m : Memory) : Memory :=
  { m with pfa := { m.pfa with exhausted := false } }

/-- Some call of {lit}`pfa_alloc` inside {lit}`build_new_image` returns 0. -/
def AllocationFails (m : Memory) (modStart modEnd : Nat) : Prop :=
  (m.forget.buildNewImage modStart modEnd).2.pfa.exhausted = true

/-- The history plays no part: where an allocation fails there are too few frames. -/
theorem AllocationFails.short {m : Memory} {a b : Nat} (h : AllocationFails m a b) (hok : MemOk m)
    (hpde : m.pageDirectory 768 < 2 ^ 32) (hcr3 : ¬ m.pfa.Free (m.cr3 / 4096)) :
    b ≤ a ∨ m.pfa.freeCount < imageDemand (b - a) := by
  unfold AllocationFails at h
  have hok' : MemOk m.forget := ⟨hok.closed, hok.window⟩
  rcases buildNewImage_spec (a := a) (b := b) hok' hpde hcr3 with ⟨d, m', hrun, -, -, -, -, hexh⟩ | ⟨m', hrun, -, hshort⟩
  · rw [hrun, hexh] at h
    cases h
  · exact hshort

end Memory

namespace Kernel

section Failures

variable {L : Layout} {R : Nat → Prop} {safe : Prop} {B : BootInfo} {k k₀ k' : Kernel}
  {kernelByte : Nat → Option UInt8} {frame : SyscallFrame}

/-- The bitmap, the control blocks, the loaded directory, the kernel's tables and heap, and
the tables and pages of every live process are those they were. -/
structure Unchanged (k k' : Kernel) : Prop where
  bitmap : k'.store.mem.pfa.bitmap = k.store.mem.pfa.bitmap
  pcbs : k'.pcbs = k.pcbs
  sched : k'.sched = k.sched
  cr3 : k'.store.mem.cr3 = k.store.mem.cr3
  pageDirectory : k'.store.mem.pageDirectory = k.store.mem.pageDirectory
  kernelPageTable : k'.store.mem.kernelPageTable = k.store.mem.kernelPageTable
  heap : k'.store.heap = k.store.heap
  spaces : ∀ p ∈ k.members, ∀ s f, k.store.mem.slots (k.dirOf p) s = some f →
    ByteMemory.BlockEq k.store.mem.phys k'.store.mem.phys f

theorem Unchanged.refl (k : Kernel) : Unchanged k k :=
  ⟨rfl, rfl, rfl, rfl, rfl, rfl, rfl, fun _ _ _ _ _ => ByteMemory.BlockEq.refl _ _⟩

/-- The path is read and names no module, or a module that is empty or for which an
allocation fails. -/
def ExecRefused (k : Kernel) (kernelByte : Nat → Option UInt8) (frame : SyscallFrame) : Prop :=
  ∃ path, copyUserString (k.store.mem.readVirtual kernelByte) frame.ebx execPathMax =
      some (some path) ∧
    (moduleLoaderFindModuleByPath k.modules path = none ∨
      ∃ a b, moduleLoaderFindModuleByPath k.modules path = some (a, b) ∧
        (b ≤ a ∨ k.store.mem.AllocationFails a b))

/-- A construction that was given up changes nothing of these. -/
theorem Inv.unchanged (h : Inv L R safe k) (hr : Memory.Restored k.store.mem k'.store.mem)
    (hrest : k' = { k with store := ⟨k'.store.mem, k.store.heap⟩ }) : Unchanged k k' := by
  refine ⟨Bitmap.ext_test hr.used, by rw [hrest], by rw [hrest], hr.same.cr3,
    hr.same.pageDirectory, hr.same.kernelPageTable, by rw [hrest], fun p hp s f hs => ?_⟩
  have hdir : k.dirOf p ∈ k.allDirs := List.mem_map.2 ⟨p, hp, rfl⟩
  exact hr.phys f ((h.holding.store.spaces.settled hdir).frames s f hs)

/-- An exec that does not return 0 has changed nothing. -/
theorem Inv.sysExec_fails (h : Inv L R safe k) {r : Nat} {frame' : SyscallFrame}
    (hrun : k.sysExec kernelByte frame = some (r, k', frame')) (hr : r ≠ 0) :
    r = minusOne ∧ frame' = frame ∧ Unchanged k k' := by
  rcases sysExec_cases hrun with heq | ⟨path, a, b, -, -, heq⟩
  · cases heq
    exact ⟨rfl, rfl, .refl k⟩
  · have hspec := execModule_spec h frame a b
    rw [← heq] at hspec
    cases hspec with
    | failed inv aside short restored rest => exact ⟨rfl, rfl, h.unchanged restored rest⟩
    | done inv executed room => exact absurd rfl hr

/-- Each of these causes makes the call return -1. -/
theorem Inv.sysExec_refused (h : Inv L R safe k) (hrefused : k.ExecRefused kernelByte frame) :
    ∃ k', k.sysExec kernelByte frame = some (minusOne, k', frame) := by
  obtain ⟨path, hpath, hnone | ⟨a, b, hfound, hcause⟩⟩ := hrefused
  · refine ⟨k, ?_⟩
    simp only [Kernel.sysExec, hpath, hnone]
  · have hspec := execModule_spec h frame a b
    rw [sysExec_eq hpath hfound]
    generalize k.execModule frame a b = r at hspec ⊢
    cases hspec with
    | @failed k' inv aside short restored rest => exact ⟨k', rfl⟩
    | done inv executed room =>
        have hspaces := h.holding.store.spaces
        have hcr3 := h.cr3_not_free
        have hshort : b ≤ a ∨ k.store.mem.pfa.freeCount < Memory.imageDemand (b - a) := by
          rcases hcause with hempty | hfails
          · exact .inl hempty
          · exact hfails.short hspaces.ok hspaces.pde.1 hcr3
        omega

/-- A failing exec changes nothing: a path without a module, an empty module and a failed
allocation at any point of the construction make the call return -1, and a call that does
not return 0 leaves the bitmap, the caller and every live process as they were. -/
theorem failing_exec_changes_nothing (hboot : kmain L B = some k₀) (hk : Reachable L k₀ k) :
    (k.ExecRefused kernelByte frame →
      ∃ k', k.sysExec kernelByte frame = some (minusOne, k', frame) ∧ Unchanged k k') ∧
    ∀ r k' frame', k.sysExec kernelByte frame = some (r, k', frame') → r ≠ 0 →
      r = minusOne ∧ frame' = frame ∧ Unchanged k k' := by
  have hinv := (kmain_inv hboot).reachable hk
  refine ⟨fun hrefused => ?_, fun r k' frame' hrun hr => hinv.sysExec_fails hrun hr⟩
  obtain ⟨k', hrun⟩ := hinv.sysExec_refused hrefused
  exact ⟨k', hrun, (hinv.sysExec_fails hrun (by decide)).2.2⟩

/-- A call of {lit}`exec` with its path in the kernel image. -/
def sampleExec : SyscallFrame :=
  { sampleCall 2 with ebx := 0xC0100000 }

/-- A path of one letter. -/
def samplePath (c : UInt8) (va : Nat) : Option UInt8 :=
  if va = 0xC0100000 then some c else some 0

theorem samplePath_read (m : Memory) {c : UInt8} (hc : c ≠ 0) :
    copyUserString (m.readVirtual (samplePath c)) sampleExec.ebx execPathMax =
      some (some [c]) := by
  have hread : ∀ va, ¬ va < 0xC0000000 → m.readVirtual (samplePath c) va = samplePath c va :=
    fun va hva => if_neg hva
  have hfirst := hread 0xC0100000 (by norm_num)
  have hsecond := hread (u32 (0xC0100000 + 1)) (by norm_num [u32])
  have hzero : u32 (0xC0100000 + 1) ≠ 0xC0100000 := by norm_num [u32]
  simp only [samplePath, if_true, if_neg hzero] at hfirst hsecond
  simp [copyUserString, execPathMax, copyUserBytes, sampleExec, hfirst, hsecond, hc]

theorem failing_exec_changes_nothing_no_module :
    ∃ k₀ k', kmain sampleLayout (sampleBoot 1 (by decide) .rr) = some k₀ ∧
      k₀.sysExec (samplePath 98) sampleExec = some (minusOne, k', sampleExec) ∧
      Unchanged k₀ k' := by
  obtain ⟨k₀, hboot, -⟩ :=
    sampleBoot_runs (show 0 < 1 by decide) (by decide) SchedulingPolicy.rr
  have hmodules : k₀.modules = moduleLoaderSetModules (sampleBoot 1 (by decide) .rr).mods :=
    (kmain_started hboot).modules
  obtain ⟨k', hrun, hsame⟩ := (failing_exec_changes_nothing hboot .boot).1
    ⟨[98], samplePath_read _ (by decide), .inl (by rw [hmodules]; rfl)⟩
  exact ⟨k₀, k', hboot, hrun, hsame⟩

end Failures

end Kernel

end SoKernel
