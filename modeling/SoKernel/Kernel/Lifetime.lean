import SoKernel.Scheduler.Pids

/-!
# How many processes there can be

A process that exits gives back its address space but neither its control block nor its
kernel stack, and both are blocks of a heap whose window ends at a fixed address.  So the
number of processes that a machine makes from boot on is bounded, however long it runs and
however much memory is free, and a machine that has reached the bound never forks again.

Main results:

- Theorem {lit}`processes_bounded`: every process made by boot or by a fork, alive or not, has
  its 4216 bytes of the kernel heap.
-/

namespace SoKernel

/-- The owned blocks of a tiling fit into it. -/
theorem Tiled.sum_owned_le {β : Type} {ts : List (Tile β)} {lo hi : Nat} (h : Tiled lo ts hi) :
    lo + ((ownedTiles ts).map Tile.len).sum ≤ hi := by
  induction ts generalizing lo with
  | nil => exact Nat.le_of_eq h
  | cons t ts ih =>
      obtain ⟨-, -, hrest⟩ := h
      have hsum := ih hrest
      cases ho : t.owner with
      | none =>
          have howned : ownedTiles (t :: ts) = ownedTiles ts := by simp [ownedTiles, ho]
          rw [howned]
          omega
      | some o =>
          have howned : ownedTiles (t :: ts) = t :: ownedTiles ts := by simp [ownedTiles, ho]
          rw [howned, List.map_cons, List.sum_cons]
          omega

/-- The live blocks fit into the heap, with their headers. -/
theorem HeapOk.sum_live_le {L : Layout} {s : Store} {ts : List (Tile Nat)} (hok : HeapOk L s ts) :
    L.heapStart + (s.heap.live.map fun b => 8 * unitsFor b.2).sum ≤ s.heap.heapCurrent := by
  have hlens : ((ownedTiles ts).map liveEntry).map (fun b => 8 * unitsFor b.2) =
      (ownedTiles ts).map Tile.len := by
    rw [List.map_map]
    refine List.map_congr_left fun t ht => ?_
    obtain ⟨hmem, hsome⟩ := mem_ownedTiles.1 ht
    obtain ⟨n, hn⟩ := Option.isSome_iff_exists.1 hsome
    simp only [Function.comp_apply, liveEntry, hn, Option.getD_some]
    exact (hok.room t hmem n hn).2.symm
  rw [(hok.live.map _).sum_eq, hlens]
  exact hok.shape.tiled.sum_owned_le

namespace Kernel

section Lifetime

variable {L : Layout} {R : Nat → Prop} {safe : Prop} {B : BootInfo} {k k₀ : Kernel}

/-- The processes that hold blocks are those that boot and forks have made. -/
theorem Inv.length_holders (h : Inv L R safe k) :
    k.holders.length = k.booted.length + k.forked.length + k.dropped.length := by
  have hlen := h.history.length_eq
  rw [List.length_append, List.length_append] at hlen
  unfold holders
  rw [List.length_append, List.length_append]
  omega

/-- Every process ever made holds a control block and a kernel stack. -/
theorem Inv.holders_fit (h : Inv L R safe k) :
    L.heapStart + 4216 * k.holders.length ≤ k.store.heap.heapCurrent := by
  have hpcb : unitsFor sizeofPcb = 14 := by decide
  have hstack : unitsFor kernelStackSize = 513 := by decide
  have hsum : ∀ ps : List Nat, ((ps.flatMap k.blocks).map fun b => 8 * unitsFor b.2).sum =
      4216 * ps.length := by
    intro ps
    induction ps with
    | nil => rfl
    | cons p ps ih =>
        rw [List.flatMap_cons, List.map_append, List.sum_append, ih, List.length_cons]
        simp only [Kernel.blocks, List.map_cons, List.map_nil, List.sum_cons, List.sum_nil, hpcb,
          hstack]
        omega
  have hblocks := (h.holding.blocks.map fun b => 8 * unitsFor b.2).sum_eq
  rw [allBlocks, hsum] at hblocks
  obtain ⟨hb, -⟩ := h.live (mem_holders k.current_mem)
  obtain ⟨ts, hready⟩ := h.holding.store.heap
  have hlive := (hready.ok_of_live hb).sum_live_le
  rw [hblocks] at hlive
  exact hlive

/-- From boot on, a machine makes at most as many processes as their control blocks and kernel
stacks fit into the heap's window, counting the processes that have exited. -/
theorem processes_bounded (hboot : kmain L B = some k₀) (hk : Reachable L k₀ k) :
    L.heapStart + 4216 * (k.booted.length + k.forked.length + k.dropped.length) ≤ 0xC03FF000 := by
  have hinv := (kmain_inv hboot).reachable hk
  have hfit := hinv.holders_fit
  obtain ⟨-, htop, -⟩ := hinv.holding.store.heap_bounds
  rw [← hinv.length_holders]
  omega

theorem processes_bounded_one_fork :
    ∃ k₀ k₁ out, kmain sampleLayout (sampleBoot 1 (by decide) .rr) = some k₀ ∧
      k₀.trap sampleLayout (.syscall (sampleCall 3) fun _ => none) = some (k₁, out) ∧
      sampleLayout.heapStart + 4216 * (k₁.booted.length + k₁.forked.length + k₁.dropped.length) ≤
        0xC03FF000 := by
  obtain ⟨k₀, hboot, -⟩ := sampleBoot_runs (show 0 < 1 by decide) (by decide) SchedulingPolicy.rr
  have htrap := trap_fork (L := sampleLayout) (sampleCall 3) (fun _ => none)
    (kmain_started hboot).idle (by decide) rfl
  exact ⟨k₀, _, _, hboot, htrap, processes_bounded hboot (.trap .boot htrap)⟩

end Lifetime

end Kernel

end SoKernel
