import SoKernel.Kernel.Progress

/-!
# Isolation

The invariant of the running kernel, read as a statement about what processes can see of
each other.  Every frame of an address space belongs to one place of one process, and
the kernel addresses look the same in all of them.

Main results:

- Theorem {lit}`address_spaces_isolated`: in every reachable state no frame is in two places, and a
  user write reaches no other process, no page table and no heap page.
- Theorem {lit}`hardware_follows_current`: the loaded directory and the kernel stack are those of
  the current process, and all directories agree on the kernel's part.
-/

namespace SoKernel

/-- The physical address that the processor finds for a virtual one under the directory in
frame {lit}`d`; the table of the kernel window is a static array of the kernel. -/
def Memory.walk (L : Layout) (m : Memory) (d va : Nat) : Option Nat :=
  let pde := m.phys.word d (va / 2 ^ 22)
  if present pde then
    let pte :=
      if pde / 4096 = L.kernelPageTablePhys / 4096 then m.kernelPageTable (va / 2 ^ 12 % 1024)
      else m.phys.word (pde / 4096) (va / 2 ^ 12 % 1024)
    if present pte then some (4096 * (pte / 4096) + va % 4096) else none
  else none

namespace Kernel

section Isolation

variable {L : Layout} {R : Nat → Prop} {safe : Prop} {B : BootInfo} {k k₀ k' : Kernel}

/-! ## Frames -/

/-- Where the frame {lit}`f` in a place of the address space of {lit}`p` can not be. -/
structure FrameIsolated (L : Layout) (mods : List MultibootModule) (k : Kernel) (p : Nat)
    (s : Slot) (f : Nat) : Prop where
  used : k.store.mem.pfa.used f = true
  once : ∀ s', k.store.mem.slots (k.dirOf p) s' = some f → s' = s
  apart : ∀ q ∈ k.members, q ≠ p → ∀ s', k.store.mem.slots (k.dirOf q) s' ≠ some f
  heap : ¬ HeapFrame L k.store.mem f
  modules : ∀ mod ∈ mods, ¬ ModuleFrame mod f

/-- What a user write leaves alone. -/
structure WriteConfined (L : Layout) (k k' : Kernel) : Prop where
  others : ∀ q ∈ k.members, q ≠ k.sched.currentPcb → ∀ s f,
    k.store.mem.slots (k.dirOf q) s = some f →
      ByteMemory.BlockEq k.store.mem.phys k'.store.mem.phys f
  directories : ∀ q ∈ k.members,
    ByteMemory.BlockEq k.store.mem.phys k'.store.mem.phys (k.dirOf q)
  tables : ∀ q ∈ k.members, ∀ i f, k.store.mem.slots (k.dirOf q) (.table i) = some f →
    ByteMemory.BlockEq k.store.mem.phys k'.store.mem.phys f
  heapFrames : ∀ f, HeapFrame L k.store.mem f →
    ByteMemory.BlockEq k.store.mem.phys k'.store.mem.phys f
  heap : k'.store.heap = k.store.heap
  kernelTables : k'.store.mem.kernelPageTable = k.store.mem.kernelPageTable ∧
    k'.store.mem.pageDirectory = k.store.mem.pageDirectory

/-- Two processes share no frame. -/
theorem Inv.apart (h : Inv L R safe k) {p q : Nat} (hp : p ∈ k.members) (hq : q ∈ k.members)
    (hne : p ≠ q) {f : Nat} (hf : Owns (k.store.mem.slots (k.dirOf p)) f) :
    ¬ Owns (k.store.mem.slots (k.dirOf q)) f := by
  have hapart := h.holding.store.spaces.apart
  rw [allDirs, List.pairwise_map] at hapart
  have hsymm : Std.Symm fun p q => ∀ f, Owns (k.store.mem.slots (k.dirOf p)) f →
      ¬ Owns (k.store.mem.slots (k.dirOf q)) f := ⟨fun a b hab f hf hf' => hab f hf' hf⟩
  exact hapart.forall hp hq hne f hf

/-- After a boot that ran out of no frame, what stands in a place is a frame of its own. -/
theorem Inv.owns (h : Inv L R safe k) (hs : safe) {p : Nat} (hp : p ∈ k.members) {s : Slot}
    {f : Nat} (hf : k.store.mem.slots (k.dirOf p) s = some f) :
    Owns (k.store.mem.slots (k.dirOf p)) f := by
  refine ⟨fun hz => ?_, s, hf⟩
  rw [hz] at hf
  exact h.holding.store.spaces.filled hs _ (List.mem_map_of_mem hp) s hf

theorem Inv.frameIsolated (h : Inv L (Reserved L B.mods) safe k) (hs : safe)
    (hmods : ∀ mod ∈ B.mods, ∀ f, ModuleFrame mod f → (bootPfa L B.mods).used f = true) {p : Nat}
    (hp : p ∈ k.members) {s : Slot} {f : Nat}
    (hf : k.store.mem.slots (k.dirOf p) s = some f) : FrameIsolated L B.mods k p s f := by
  have hspaces := h.holding.store.spaces
  have hdir : k.dirOf p ∈ k.allDirs := List.mem_map_of_mem hp
  have howns := h.owns hs hp hf
  refine ⟨(hspaces.owned hdir howns).1, fun s' hs' => ?_, fun q hq hne s' hs' => ?_, fun hheap => ?_,
    fun mod hmod hframe => ?_⟩
  · exact (hspaces.space _ hdir).separate _ _ _ howns.1 hs' hf
  · exact h.apart hp hq (Ne.symm hne) howns (h.owns hs hq hs')
  · exact (hspaces.kept f (.inr hheap)).2 _ hdir howns
  · exact (hspaces.kept f (.inl (hmods mod hmod f hframe))).2 _ hdir howns

/-- A user write changes one page of the current process. -/
theorem Inv.writeConfined (h : Inv L R safe k) (hs : safe) {va : Nat} {byte : UInt8}
    (hw : k.userWrite va byte = some k') : WriteConfined L k k' := by
  obtain ⟨i, j, f, hpage⟩ := h.writePage hs hw
  have hspaces := h.holding.store.spaces
  have hcur := k.current_mem
  have hdir : k.dirOf k.sched.currentPcb ∈ k.allDirs := List.mem_map_of_mem hcur
  have howns := h.owns hs hcur hpage.slot
  -- A frame in another place is another frame.
  have hplace : ∀ q ∈ k.members, ∀ s g, k.store.mem.slots (k.dirOf q) s = some g →
      (q ≠ k.sched.currentPcb ∨ s ≠ .page i j) → g ≠ f := by
    intro q hq s g hg hplace heq
    subst heq
    by_cases hqc : q = k.sched.currentPcb
    · subst hqc
      rcases hplace with hne | hne
      · exact hne rfl
      · exact hne ((hspaces.space _ hdir).separate _ _ _ howns.1 hg hpage.slot)
    · exact h.apart hcur hq (Ne.symm hqc) howns (h.owns hs hq hg)
  refine ⟨fun q hq hne s g hg => ?_, fun q hq => ?_, fun q hq i' g hg => ?_, fun g hg => ?_, ?_, ?_⟩
  · exact hpage.kept g (hplace q hq s g hg (.inl hne))
  · exact hpage.kept _ (hplace q hq .dir _ rfl (.inr (by simp)))
  · exact hpage.kept g (hplace q hq (.table i') g hg (.inr (by simp)))
  · refine hpage.kept g fun heq => ?_
    subst heq
    exact (hspaces.kept g (.inr hg)).2 _ hdir howns
  · rw [hpage.kernel]
    rfl
  · rw [hpage.kernel]
    exact ⟨rfl, rfl⟩

/-- Address-space isolation, along every run of a boot that ran out of no frame. -/
theorem address_spaces_isolated (hboot : kmain L B = some k₀)
    (hplenty : k₀.store.mem.pfa.exhausted = false)
    (hmods : ∀ mod ∈ B.mods, ∀ f, ModuleFrame mod f → (bootPfa L B.mods).used f = true)
    (hk : Reachable L k₀ k) :
    (∀ p ∈ k.members, ∀ s f, k.store.mem.slots (k.dirOf p) s = some f →
        FrameIsolated L B.mods k p s f) ∧
      ∀ va byte k', k.userWrite va byte = some k' → WriteConfined L k k' := by
  have hinv := (kmain_inv hboot).reachable hk
  exact ⟨fun p hp s f hf => hinv.frameIsolated hplenty hmods hp hf,
    fun va byte k' hw => hinv.writeConfined hplenty hw⟩

theorem address_spaces_isolated_sample_run :
    ∃ k₀ k₁ k₂ k₃ k₄ k₅ out₁ out₃ out₄ out₅ p q child,
      kmain sampleLayout (sampleBoot 2 (by decide) .fcfs) = some k₀ ∧
      SampleRun k₀ k₁ k₂ k₃ k₄ k₅ out₁ out₃ out₄ out₅ p q child ∧
      (∀ p ∈ k₅.members, ∀ s f, k₅.store.mem.slots (k₅.dirOf p) s = some f →
        FrameIsolated sampleLayout (sampleBoot 2 (by decide) .fcfs).mods k₅ p s f) ∧
      WriteConfined sampleLayout k₁ k₂ := by
  obtain ⟨k₀, k₁, k₂, k₃, k₄, k₅, out₁, out₃, out₄, out₅, p, q, child, hboot, hplenty, hrun⟩ :=
    sampleRun_exists
  have hmods : ∀ mod ∈ (sampleBoot 2 (by decide) .fcfs).mods, ∀ f, ModuleFrame mod f →
      (bootPfa sampleLayout (sampleBoot 2 (by decide) .fcfs).mods).used f = true :=
    fun mod hmod f hf => bootPfa_reserves _ hmod (sampleBoot_aligned mod hmod) hf
  exact ⟨k₀, k₁, k₂, k₃, k₄, k₅, out₁, out₃, out₄, out₅, p, q, child, hboot, hrun,
    (address_spaces_isolated hboot hplenty hmods (hrun.reachable hplenty)).1,
    (address_spaces_isolated hboot hplenty hmods (.trap .boot hrun.exec)).2 _ _ _ hrun.write⟩

/-! ## The loaded directory -/

/-- What the processor has loaded, and what every directory shares with the kernel's. -/
structure HardwareFollows (L : Layout) (k : Kernel) : Prop where
  cr3 : k.store.mem.cr3 = k.current.pdt
  dirUsed : k.store.mem.pfa.used (k.current.pdt / 4096) = true
  tss : k.tssEsp0 = k.current.kernelEsp0
  kernelEntry : ∀ p ∈ k.members,
    k.store.mem.phys.word (k.dirOf p) 768 = k.store.mem.pageDirectory 768
  highEntries : ∀ p ∈ k.members, ∀ i, 768 < i → i < 1024 →
    present (k.store.mem.phys.word (k.dirOf p) i) = false
  kernelAddresses : ∀ p ∈ k.members, ∀ q ∈ k.members, ∀ va, 0xC0000000 ≤ va → va < 2 ^ 32 →
    k.store.mem.walk L (k.dirOf p) va = k.store.mem.walk L (k.dirOf q) va
  destroyed : k.store.mem.destroyedLoaded = false

/-- The loaded directory, the kernel stack and the kernel's part of every directory, along
every run. -/
theorem hardware_follows_current (hboot : kmain L B = some k₀) (hk : Reachable L k₀ k) :
    HardwareFollows L k := by
  have hinv := (kmain_inv hboot).reachable hk
  have hspaces := hinv.holding.store.spaces
  have hspace : ∀ p ∈ k.members, Memory.Space k.store.mem (k.dirOf p) := fun p hp =>
    hspaces.space _ (List.mem_map_of_mem hp)
  have hloaded := hinv.loaded
  refine ⟨hinv.holding.cr3, ?_, hinv.tss, fun p hp => (hspace p hp).kernel,
    fun p hp i hlo hhi => ?_, fun p hp q hq va hlo hhi => ?_, hinv.holding.store.loaded⟩
  · exact (hspaces.owned hloaded.2 (hspaces.dir_owned hloaded.2)).1
  · rw [(hspace p hp).high i hlo hhi]
    rfl
  · -- Kernel addresses go through entry 768 or through an empty one.
    have hentry : k.store.mem.phys.word (k.dirOf p) (va / 2 ^ 22) =
        k.store.mem.phys.word (k.dirOf q) (va / 2 ^ 22) := by
      rcases Nat.lt_or_ge 768 (va / 2 ^ 22) with hhigh | hlow
      · rw [(hspace p hp).high _ hhigh (by omega), (hspace q hq).high _ hhigh (by omega)]
      · rw [show va / 2 ^ 22 = 768 by omega, (hspace p hp).kernel, (hspace q hq).kernel]
    unfold Memory.walk
    rw [hentry]

theorem hardware_follows_current_sample_run :
    ∃ k₀ k₁ k₂ k₃ k₄ k₅ out₁ out₃ out₄ out₅ p q child,
      kmain sampleLayout (sampleBoot 2 (by decide) .fcfs) = some k₀ ∧
      SampleRun k₀ k₁ k₂ k₃ k₄ k₅ out₁ out₃ out₄ out₅ p q child ∧
      HardwareFollows sampleLayout k₅ := by
  obtain ⟨k₀, k₁, k₂, k₃, k₄, k₅, out₁, out₃, out₄, out₅, p, q, child, hboot, hplenty, hrun⟩ :=
    sampleRun_exists
  exact ⟨k₀, k₁, k₂, k₃, k₄, k₅, out₁, out₃, out₄, out₅, p, q, child, hboot, hrun,
    hardware_follows_current hboot (hrun.reachable hplenty)⟩

end Isolation

end Kernel

end SoKernel
