import SoKernel.Kernel.Invariant

/-!
# Exec

An exec builds the new image beside the old address space, loads its directory, and
only then releases the old space.  When the image cannot be built the caller goes on
with its old space.

Main results:

- Theorem {lit}`execModule_spec`: an exec either fails and leaves every process as it was,
  or gives the caller the image of the module and frees its old frames.
- Theorem {lit}`Inv.execModule_memory`: the calls that made the memory after an exec.
-/

namespace SoKernel

namespace Kernel

/-- What an exec that succeeds leaves behind, with the new directory in frame
{lit}`d`. -/
structure Executed (k : Kernel) (modStart modEnd : Nat) (k' : Kernel) (d : Nat) : Prop where
  pcb : k'.current = execPcb k.current ⟨4096 * d, 0, 0xBFFFFFF8⟩
  others : ∀ p, p ≠ k.sched.currentPcb → k'.pcbs p = k.pcbs p
  sched : k'.sched = k.sched
  tss : k'.tssEsp0 = k.tssEsp0
  pitTicks : k'.pitTicks = k.pitTicks
  modules : k'.modules = k.modules
  idle : k'.idle = k.idle
  booted : k'.booted = k.booted
  dropped : k'.dropped = k.dropped
  forked : k'.forked = k.forked
  exited : k'.exited = k.exited
  image : Memory.ImageOf k.store.mem modStart (modEnd - modStart) k'.store.mem.phys d
  filled : ∀ s, k'.store.mem.slots d s ≠ some 0
  frames : ∀ f, Owns (k'.store.mem.slots d) f → k.store.mem.pfa.Free f
  freed : ∀ g, k'.store.mem.pfa.used g = true ↔
    (k.store.mem.pfa.used g = true ∧
        ¬ Owns (k.store.mem.slots (k.dirOf k.sched.currentPcb)) g) ∨
      Owns (k'.store.mem.slots d) g

/-- The result of an exec of a module that was found. -/
inductive ExecResult (L : Layout) (R : Nat → Prop) (safe : Prop) (k : Kernel)
    (frame : SyscallFrame) (modStart modEnd : Nat) : Nat × Kernel × SyscallFrame → Prop
  | failed {k' : Kernel} (inv : Inv L R safe k') (aside : Aside k k')
      (short : modEnd ≤ modStart ∨
        k.store.mem.pfa.freeCount < Memory.imageDemand (modEnd - modStart))
      (restored : Memory.Restored k.store.mem k'.store.mem)
      (rest : k' = { k with store := ⟨k'.store.mem, k.store.heap⟩ }) :
      ExecResult L R safe k frame modStart modEnd (minusOne, k', frame)
  | done {k' : Kernel} {d : Nat} (inv : Inv L R safe k')
      (executed : Executed k modStart modEnd k' d)
      (room : modStart < modEnd ∧
        Memory.imageDemand (modEnd - modStart) ≤ k.store.mem.pfa.freeCount) :
      ExecResult L R safe k frame modStart modEnd
        (0, k', execFrame frame ⟨4096 * d, 0, 0xBFFFFFF8⟩)

section Exec

variable {L : Layout} {R : Nat → Prop} {safe : Prop} {k k' : Kernel} {d a b : Nat}

/-- The caller exchanges its address space. -/
theorem Inv.exchange (h : Inv L R safe k) (he : Executed k a b k' d)
    (hhold : Holding L R safe (4096 * d) k.allBlocks (d :: k.sched.ready.toList.map k.dirOf)
      k'.store) : Inv L R safe k' := by
  have hmembers : k'.members = k.members := by
    unfold members
    rw [he.sched]
  have hholders : k'.holders = k.holders := by
    unfold holders
    rw [hmembers, he.exited, he.dropped]
  have hpcb : k'.pcbs k.sched.currentPcb = execPcb k.current ⟨4096 * d, 0, 0xBFFFFFF8⟩ := by
    rw [← he.pcb, current, he.sched]
  -- The caller is not in the ready queue, so no other directory changes.
  have hready : ∀ p ∈ k.sched.ready.toList, p ≠ k.sched.currentPcb := fun p hp hpc =>
    (List.nodup_cons.1 h.members_nodup).1 (hpc ▸ hp)
  have hdirs : k'.allDirs = d :: k.sched.ready.toList.map k.dirOf := by
    unfold allDirs
    rw [hmembers, members, List.map_cons]
    congr 1
    · simp [dirOf, hpcb, execPcb]
    · refine List.map_congr_left fun p hp => ?_
      rw [dirOf, he.others p (hready p hp)]
      rfl
  have hblocks : k'.allBlocks = k.allBlocks := by
    unfold allBlocks
    rw [hholders]
    refine List.flatMap_congr fun p hp => ?_
    by_cases hpc : p = k.sched.currentPcb
    · rw [hpc, Kernel.blocks, hpcb]
      rfl
    · simp only [Kernel.blocks, he.others p hpc]
  refine ⟨?_, fun p hp => ?_, ?_, ?_⟩
  · rw [hdirs, hblocks, he.pcb]
    exact hhold
  · by_cases hpc : p = k.sched.currentPcb
    · rw [hpc, dirOf, hpcb]
      simp [execPcb]
    · rw [hmembers] at hp
      rw [dirOf, he.others p hpc]
      exact h.aligned p hp
  · rw [he.tss, h.tss, he.pcb]
    rfl
  · rw [hmembers, he.exited, he.booted, he.forked]
    exact h.history

/-- An exec that fails leaves everything as it was; one that succeeds gives the caller the
image of the module. -/
theorem execModule_spec (h : Inv L R safe k) (frame : SyscallFrame) (modStart modEnd : Nat) :
    ExecResult L R safe k frame modStart modEnd (k.execModule frame modStart modEnd) := by
  obtain ⟨hpdt, hloaded⟩ := h.loaded
  have hspaces := h.holding.store.spaces
  have hcr3 := h.cr3_not_free
  unfold execModule
  rcases Memory.buildNewImage_spec (a := modStart) (b := modEnd) hspaces.ok hspaces.pde.1 hcr3 with
    ⟨d, m, hrun, hbuilt, himage, hne, hcount, -⟩ | ⟨m, hrun, hrestored, hshort⟩
  · simp only [if_neg h.current_ne, hrun]
    obtain ⟨-, hslots⟩ := h.holding.store.built hbuilt
    have hwith := (h.holding.built hbuilt).updateCr3 (4096 * d)
    have hboth := hwith.perm (List.Perm.swap (k.dirOf k.sched.currentPcb) d _)
    obtain ⟨hhold, hkept, hphys, hused⟩ := hboth.destroy List.mem_cons_self
    have hpdt' : (k.pcbs k.sched.currentPcb).pdt = 4096 * k.dirOf k.sched.currentPcb := hpdt
    simp only [hpdt', withMem, setPcb] at hhold hkept hphys hused ⊢
    generalize (m.updateCr3 (4096 * d)).destroyUserSpace (4096 * k.dirOf k.sched.currentPcb) = m'
      at hhold hkept hphys hused ⊢
    -- The old directory is the only frame that the release writes.
    have hout : ¬ Owns (m.slots d) (k.dirOf k.sched.currentPcb) := fun howns =>
      hspaces.not_free hloaded (.inl (hspaces.dir_owned hloaded)) (hbuilt.fresh _ howns)
    have hslot : m'.slots d = m.slots d := hkept d List.mem_cons_self
    have hexec : Executed k modStart modEnd (({ k with
        store := ⟨m', k.store.heap⟩
        pcbs := Function.update k.pcbs k.sched.currentPcb
          (execPcb (k.pcbs k.sched.currentPcb) ⟨4096 * d, 0, 0xBFFFFFF8⟩) } : Kernel).logProcessStat
        (Function.update k.pcbs k.sched.currentPcb
          (execPcb (k.pcbs k.sched.currentPcb) ⟨4096 * d, 0, 0xBFFFFFF8⟩) k.sched.currentPcb).pid
            .created .exec) d := by
      refine ⟨Function.update_self _ _ _, fun p hp => Function.update_of_ne hp _ _, rfl, rfl, rfl,
        rfl, rfl, rfl, rfl, rfl, rfl, ?_, fun s => ?_, fun f hf => ?_, fun g => ?_⟩
      · exact himage.kept fun i j hi hj => hbuilt.kept_write hout hphys hi hj
      · change m'.slots d s ≠ some 0
        rw [hslot]
        exact hbuilt.filled s
      · change Owns (m'.slots d) f at hf
        rw [hslot] at hf
        exact hbuilt.fresh f hf
      · change m'.pfa.used g = true ↔ _ ∨ Owns (m'.slots d) g
        rw [hslot, hused g]
        change m.pfa.used g = true ∧ ¬ Owns (m.slots (k.dirOf k.sched.currentPcb)) g ↔ _
        rw [hslots _ hloaded, hbuilt.used g]
        have hnew : Owns (m.slots d) g →
            ¬ Owns (k.store.mem.slots (k.dirOf k.sched.currentPcb)) g := fun hn ho =>
          hspaces.not_free hloaded (.inl ho) (hbuilt.fresh g hn)
        simp only [List.not_mem_nil, or_false]
        tauto
    exact .done (h.exchange hexec hhold) hexec ⟨hne, by omega⟩
  · simp only [if_neg h.current_ne, hrun]
    have hgone : Aside k (k.withMem m) :=
      ⟨fun _ _ => rfl, rfl, rfl, rfl, rfl, rfl, rfl, rfl, rfl, rfl⟩
    exact .failed (h.aside hgone (h.holding.restored hrestored)) hgone hshort hrestored rfl

/-- The memory after an exec: the new space is built and loaded, then the old one released; or
the old one stays. -/
theorem Inv.execModule_memory (h : Inv L R safe k) (frame : SyscallFrame) (modStart modEnd : Nat) :
    (∃ d m, Memory.Built k.store.mem m d [] ∧
      m.pfa.freeCount + Memory.imageDemand (modEnd - modStart) = k.store.mem.pfa.freeCount ∧
      StoreOk L R safe ⟨m.updateCr3 (4096 * d), k.store.heap⟩
        (k.dirOf k.sched.currentPcb :: d :: k.sched.ready.toList.map k.dirOf) ∧
      (k.execModule frame modStart modEnd).2.1.store.mem =
        (m.updateCr3 (4096 * d)).destroyUserSpace (4096 * k.dirOf k.sched.currentPcb) ∧
      (k.execModule frame modStart modEnd).2.1.dirOf k.sched.currentPcb = d) ∨
    ∃ m, Memory.Restored k.store.mem m ∧
      (k.execModule frame modStart modEnd).2.1 = k.withMem m := by
  obtain ⟨hpdt, -⟩ := h.loaded
  have hpdt' : (k.pcbs k.sched.currentPcb).pdt = 4096 * k.dirOf k.sched.currentPcb := hpdt
  have hspaces := h.holding.store.spaces
  unfold execModule
  rcases Memory.buildNewImage_spec (a := modStart) (b := modEnd) hspaces.ok hspaces.pde.1
    h.cr3_not_free with ⟨d, m, hrun, hbuilt, -, -, hcount, -⟩ | ⟨m, hrun, hrestored, -⟩
  · simp only [if_neg h.current_ne, hrun]
    have hwith := (h.holding.built hbuilt).updateCr3 (4096 * d)
    have hboth := hwith.perm (List.Perm.swap (k.dirOf k.sched.currentPcb) d _)
    refine .inl ⟨d, m, hbuilt, hcount, hboth.store, ?_, ?_⟩
    · rw [hpdt']
      rfl
    · -- The caller's directory is now the one that was built.
      change (Function.update k.pcbs k.sched.currentPcb
        (execPcb (k.pcbs k.sched.currentPcb) ⟨4096 * d, 0, 0xBFFFFFF8⟩)
          k.sched.currentPcb).pdt / 4096 = d
      rw [Function.update_self]
      exact Nat.mul_div_cancel_left d (by norm_num)
  · simp only [if_neg h.current_ne, hrun]
    exact .inr ⟨m, hrestored, rfl⟩

end Exec

end Kernel

end SoKernel
