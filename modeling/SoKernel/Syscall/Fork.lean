import SoKernel.Kernel.Invariant

/-!
# Fork

A fork allocates a control block, copies the address space, allocates a kernel stack
and enqueues the child.  Whenever one of these fails, everything allocated before is
given back.

Main results:

- Theorem {lit}`sysFork_spec`: a fork either fails and leaves every process as it was, or
  makes a child with a copy of the parent's pages.
-/

namespace SoKernel

namespace Memory

/-- The space with directory {lit}`d` is a copy of the space with directory {lit}`pd`,
made since {lit}`m₀` on frames that were free. -/
structure SpaceCopied (m₀ : Memory) (pd : Nat) (m : Memory) (d : Nat) : Prop where
  dir_ne : d ≠ 0
  pages : ∀ i j, i < 768 → j < 1024 → PageCopied m₀.phys pd m.phys d i j
  frames : ∀ f, Owns (m.slots d) f → m₀.pfa.Free f
  filled : ∀ s, m.slots d s ≠ some 0
  kept : ∀ f, ¬ m₀.pfa.Free f → ByteMemory.BlockEq m₀.phys m.phys f

/-- The heap may grow before a copy is made. -/
theorem SpaceCopied.of_grown {m₀ m₁ m : Memory} {lo pd d : Nat} (hg : MemGrown m₀ m₁ lo)
    (h : SpaceCopied m₁ pd m d) : SpaceCopied m₀ pd m d := by
  refine ⟨h.dir_ne, fun i j hi hj => ?_, fun f hf => free_of_grown hg (h.frames f hf),
    h.filled, fun f hf => ?_⟩
  · rw [← hg.phys]
    exact h.pages i j hi hj
  · rw [← hg.phys]
    exact h.kept f fun hfree => hf (free_of_grown hg hfree)

/-- The heap may grow after a copy is made. -/
theorem SpaceCopied.grown {m₀ m m' : Memory} {lo pd d : Nat} (h : SpaceCopied m₀ pd m d)
    (hg : MemGrown m m' lo) : SpaceCopied m₀ pd m' d := by
  refine ⟨h.dir_ne, ?_, ?_, ?_, ?_⟩
  · rw [hg.phys]
    exact h.pages
  · unfold slots
    rw [hg.phys]
    exact h.frames
  · unfold slots
    rw [hg.phys]
    exact h.filled
  · rw [hg.phys]
    exact h.kept

/-- The address space of a process is settled: building another one leaves it alone. -/
theorem Spaces.settled {F : Nat → Prop} {safe : Prop} {m : Memory} {ds : List Nat} {d : Nat}
    (h : Spaces F safe m ds) (hd : d ∈ ds) : Settled m d := by
  refine ⟨(h.ok.managed (h.owned hd (h.dir_owned hd)).2.1).2, fun s f hf => h.not_free hd ?_⟩
  by_cases hf0 : f = 0
  · exact .inr hf0
  · exact .inl ⟨hf0, s, hf⟩

end Memory

namespace Kernel

/-- The control block of a child with its directory in frame {lit}`d` and its kernel
stack at {lit}`base`. -/
def forkedPcb (k : Kernel) (frame : SyscallFrame) (d base : Nat) : Pcb :=
  { childReady (childPcb k.current k.sched.nextPid) frame (4096 * d) with
    kernelStackBase := base
    kernelEsp0 := u32 (base + 4096 - 4) }

/-- What a fork that succeeds leaves behind. -/
structure Forked (k : Kernel) (frame : SyscallFrame) (k' : Kernel) (child d base : Nat) : Prop where
  fresh : child ∉ k.holders
  pcb : k'.pcbs child = k.forkedPcb frame d base
  others : ∀ p ∈ k.holders, k'.pcbs p = k.pcbs p
  ready : k'.sched.ready.toList = k.sched.ready.toList ++ [child]
  sched : k'.sched = { k.sched with
    nextPid := k'.sched.nextPid
    ready := k'.sched.ready }
  tss : k'.tssEsp0 = k.tssEsp0
  pitTicks : k'.pitTicks = k.pitTicks
  modules : k'.modules = k.modules
  idle : k'.idle = k.idle
  booted : k'.booted = k.booted
  dropped : k'.dropped = k.dropped
  forked : k'.forked = k.forked ++ [child]
  exited : k'.exited = k.exited
  copied : Memory.SpaceCopied k.store.mem (k.dirOf k.sched.currentPcb) k'.store.mem d
  counter : k'.sched.nextPid = k.schedulerAllocatePid.2.sched.nextPid

theorem Forked.members {k k' : Kernel} {frame : SyscallFrame} {child d base : Nat}
    (h : Forked k frame k' child d base) : k'.members = k.members ++ [child] := by
  unfold Kernel.members
  rw [h.ready, h.sched]
  rfl

section Fork

variable {L : Layout} {R : Nat → Prop} {safe : Prop} {k kk k' : Kernel} {child d base : Nat}

/-- Memory does not suffice for a fork. -/
def ForkStarved (k : Kernel) : Prop :=
  0xC03FF000 < k.store.heap.heapCurrent + 4096 * 3 ∨ k.store.mem.pfa.freeCount <
    3 + Memory.cloneDemand k.store.mem.phys (k.dirOf k.sched.currentPcb)

/-- Why a fork may fail: the queue is full, or memory does not suffice. -/
def ForkShort (k : Kernel) : Prop :=
  k.sched.ready.len = readyQueueCapacity ∨ k.ForkStarved

/-- The size that the heap can have when no free block fits a kernel stack for the child. -/
def forkCrowd (L : Layout) (k : Kernel) : Nat :=
  L.heapStart + crowded ((0, sizeofPcb) :: k.store.heap.live) kernelStackSize

/-- What a fork has used up in {lit}`kk`, where {lit}`owned` frames are those of the child:
a pid, and the pages by which the heap has grown. -/
structure ForkSpent (L : Layout) (k kk : Kernel) (owned : Nat) : Prop where
  pid : kk.sched.nextPid = k.schedulerAllocatePid.2.sched.nextPid
  count : 4096 * (kk.store.mem.pfa.freeCount + owned) + kk.store.heap.heapCurrent =
    4096 * k.store.mem.pfa.freeCount + k.store.heap.heapCurrent
  pages : kk.store.heap.heapCurrent ≤ k.store.heap.heapCurrent + 4096 * 3
  grew : kk.store.heap.heapCurrent = k.store.heap.heapCurrent ∨
    k.store.heap.heapCurrent ≤ k.forkCrowd L

/-- The result of a fork. -/
inductive ForkResult (L : Layout) (R : Nat → Prop) (safe : Prop) (k : Kernel)
    (frame : SyscallFrame) : Nat × Kernel → Prop
  | failed {k' : Kernel} (inv : Inv L R safe k') (aside : Aside k k') (short : k.ForkShort)
      (spent : k.ForkStarved ∨ ForkSpent L k k' 0)
      (counter : k'.sched.nextPid = k.sched.nextPid ∨
        k'.sched.nextPid = k.schedulerAllocatePid.2.sched.nextPid)
      (grown : GrownSince L k.store.mem (fun _ => False) 1023 k'.store.mem) :
      ForkResult L R safe k frame (minusOne, k')
  | forked {k' : Kernel} {child d base : Nat} (inv : Inv L R safe k')
      (forked : Forked k frame k' child d base)
      (spent : ForkSpent L k k' (k'.store.mem.ownedCount d)) :
      ForkResult L R safe k frame (k.sched.nextPid, k')

/-- The child joins the processes. -/
theorem Inv.adopt (h : Inv L R safe k) {frame : SyscallFrame}
    (hf : Forked k frame k' child d base)
    (hhold : Holding L R safe k.current.pdt
      ((base, kernelStackSize) :: (child, sizeofPcb) :: k.allBlocks) (d :: k.allDirs) k'.store) :
    Inv L R safe k' := by
  have hmembers := hf.members
  have hholders : (child :: k.holders).Perm k'.holders := by
    unfold holders
    rw [hmembers, hf.exited, hf.dropped, List.append_assoc]
    exact List.perm_middle.symm
  have hcurrent : k'.current = k.current := by
    have hcur : k'.sched.currentPcb = k.sched.currentPcb := by rw [hf.sched]
    unfold current
    rw [hcur]
    exact hf.others _ (mem_holders k.current_mem)
  have hdirs : k'.allDirs = k.allDirs ++ [d] := by
    rw [allDirs, hmembers, List.map_append]
    congr 1
    · refine List.map_congr_left fun p hp => ?_
      rw [dirOf, hf.others p (mem_holders hp)]
      rfl
    · simp [dirOf, hf.pcb, forkedPcb, childReady]
  have hblocks : ((child :: k.holders).flatMap k'.blocks) =
      (child, sizeofPcb) :: (base, kernelStackSize) :: k.allBlocks := by
    rw [List.flatMap_cons, allBlocks]
    have hrest : k.holders.flatMap k'.blocks = k.holders.flatMap k.blocks := by
      refine List.flatMap_congr fun p hp => ?_
      simp only [Kernel.blocks, hf.others p hp]
    rw [hrest]
    simp [Kernel.blocks, hf.pcb, forkedPcb]
  refine ⟨⟨?_, ?_, hhold.pointers, hhold.nonzero, ?_⟩, fun p hp => ?_, ?_, ?_⟩
  · rw [hdirs]
    exact hhold.store.perm (List.perm_append_singleton d _).symm
  · refine hhold.blocks.trans ((List.Perm.swap _ _ _).trans ?_)
    rw [← hblocks]
    exact hholders.flatMap_right _
  · rw [hcurrent, hhold.cr3]
  · rw [hmembers, List.mem_append, List.mem_singleton] at hp
    rcases hp with hp | rfl
    · rw [dirOf, hf.others p (mem_holders hp)]
      exact h.aligned p hp
    · simp [dirOf, hf.pcb, forkedPcb, childReady]
  · rw [hf.tss, h.tss, hcurrent]
  · rw [hmembers, hf.exited, hf.booted, hf.forked, ← List.append_assoc]
    refine List.Perm.trans ?_ (h.history.append_right [child])
    rw [List.append_assoc, List.append_assoc]
    exact List.perm_append_comm.append_left _

/-- The last part: the child goes to the ready queue, or everything is given back. -/
theorem forkEnqueue_spec (h : Inv L R safe k) (frame : SyscallFrame) (ha : Aside k kk)
    (hchild : child ≠ 0) (hfresh : child ∉ k.holders)
    (hhold : Holding L R safe k.current.pdt
      ((base, kernelStackSize) :: (child, sizeofPcb) :: k.allBlocks) (d :: k.allDirs) kk.store)
    (hcopied : Memory.SpaceCopied k.store.mem (k.dirOf k.sched.currentPcb) kk.store.mem d)
    (hpcb : kk.pcbs child = { childPcb k.current k.sched.nextPid with
      kernelStackBase := base
      kernelEsp0 := u32 (base + 4096 - 4) })
    (hspent : ForkSpent L k kk (kk.store.mem.ownedCount d))
    (hsince : GrownSince L k.store.mem (Owns (kk.store.mem.slots d)) 1023 kk.store.mem) :
    ForkResult L R safe k frame
      (kk.forkEnqueue frame child k.sched.nextPid (4096 * d)) := by
  obtain ⟨hpdt, hloaded⟩ := h.loaded
  have hne : ∀ p ∈ k.holders, p ≠ child := fun p hp hpc => hfresh (hpc ▸ hp)
  have hready : childReady (kk.pcbs child) frame (4096 * d) = k.forkedPcb frame d base := by
    rw [hpcb]
    rfl
  have ha' : Aside k (kk.setPcb child (k.forkedPcb frame d base)) := by
    refine ⟨fun p hp => ?_, ha.sched, ha.tss, ha.pitTicks, ha.modules, ha.idle, ha.booted,
      ha.dropped, ha.forked, ha.exited⟩
    rw [setPcb_pcbs, Function.update_of_ne (hne p hp)]
    exact ha.pcbs p hp
  have hself : (kk.setPcb child (k.forkedPcb frame d base)).pcbs child =
      k.forkedPcb frame d base := by
    rw [setPcb_pcbs, Function.update_self]
  unfold forkEnqueue
  rw [hready]
  have hspent' : ForkSpent L k (kk.setPcb child (k.forkedPcb frame d base))
      (kk.store.mem.ownedCount d) := ⟨hspent.pid, hspent.count, hspent.pages, hspent.grew⟩
  rw [← setPcb_store kk child (k.forkedPcb frame d base)] at hhold hcopied hspent' hsince
  generalize kk.setPcb child (k.forkedPcb frame d base) = kc
    at ha' hself hhold hcopied hspent' hsince ⊢
  have hlen : kc.sched.ready = k.sched.ready := by rw [ha'.sched]
  rcases schedulerEnqueueReady_cases kc hchild with ⟨-, ready, hlist, hrun⟩ | ⟨hfull, hrun⟩
  · simp only [hrun]
    have hf : Forked k frame ({ ({ kc with sched := { kc.sched with ready := ready } } :
        Kernel).logProcessStat (kc.pcbs child).pid .created .fork with
        forked := kc.forked ++ [child] } : Kernel) child d base := by
      refine ⟨hfresh, hself, ha'.pcbs, ?_, ?_, ha'.tss, ha'.pitTicks, ha'.modules, ha'.idle,
        ha'.booted, ha'.dropped, ?_, ha'.exited, hcopied, hspent'.pid⟩
      · rw [← hlen]
        exact hlist
      · change { kc.sched with ready := ready } = { k.sched with
          nextPid := kc.sched.nextPid
          ready := ready }
        rw [ha'.sched]
      · rw [← ha'.forked]
    exact .forked (h.adopt hf hhold) hf
      ⟨hspent'.pid, hspent'.count, hspent'.pages, hspent'.grew⟩
  · have hbase : (kc.pcbs child).kernelStackBase = base := by
      rw [hself]
      rfl
    simp only [hrun, hbase]
    rw [hpdt] at hhold
    have hfreed := (hhold.kfree.destroy hloaded).1.kfree
    have hback := hhold.store.spaces.freeCount_destroy
    have hgone : Aside k (((kc.release base).withMem
        ((kc.release base).store.mem.destroyUserSpace (4096 * d))).release child) :=
      ⟨ha'.pcbs, ha'.sched, ha'.tss, ha'.pitTicks, ha'.modules, ha'.idle, ha'.booted, ha'.dropped,
        ha'.forked, ha'.exited⟩
    refine .failed (h.aside hgone ?_) hgone (.inl ?_) (.inr ⟨hspent'.pid, ?_, ?_, ?_⟩)
      (.inr hspent'.pid) (hsince.destroy hhold.store.spaces)
    · rw [hpdt]
      exact hfreed
    · rw [← hlen]
      exact hfull
    · have hcount := hspent'.count
      simp only [release, withMem, Store.kfree, kfree_heapCurrent, hback, Nat.add_zero]
      exact hcount
    · simp only [release, withMem, Store.kfree, kfree_heapCurrent]
      exact hspent'.pages
    · simp only [release, withMem, Store.kfree, kfree_heapCurrent]
      exact hspent'.grew

/-- The part from the kernel stack on. -/
theorem forkStack_spec (h : Inv L R safe k) (frame : SyscallFrame) (ha : Aside k kk)
    (hchild : child ≠ 0) (hfresh : child ∉ k.holders)
    (hhold : Holding L R safe k.current.pdt ((child, sizeofPcb) :: k.allBlocks) (d :: k.allDirs)
      kk.store)
    (hcopied : Memory.SpaceCopied k.store.mem (k.dirOf k.sched.currentPcb) kk.store.mem d)
    (hpcb : kk.pcbs child = childPcb k.current k.sched.nextPid)
    (hlive : kk.store.heap.live = (child, sizeofPcb) :: k.store.heap.live)
    (hspent : ForkSpent L k kk (kk.store.mem.ownedCount d))
    (hpage : kk.store.heap.heapCurrent ≤ k.store.heap.heapCurrent + 4096)
    (hstarved : 0xC03FF000 < kk.store.heap.heapCurrent + 4096 * 2 ∨
      kk.store.mem.pfa.freeCount < 2 → k.ForkStarved)
    (hsince : GrownSince L k.store.mem (Owns (kk.store.mem.slots d))
      (pageIndex kk.store.heap.heapCurrent) kk.store.mem) :
    ForkResult L R safe k frame
      (kk.forkStack L frame child k.sched.nextPid (4096 * d)) := by
  obtain ⟨hpdt, hloaded⟩ := h.loaded
  have hne : ∀ p ∈ k.holders, p ≠ child := fun p hp hpc => hfresh (hpc ▸ hp)
  have hpages : corePages (unitsFor kernelStackSize) = 2 := by decide
  unfold forkStack
  rcases hhold.allocKernelStack child with
    ⟨base, s, hrun, -, hhold', hgrown, -, hcount, -, hcur, hgrew⟩ |
    ⟨s, hrun, hhold', hgrown, hwhy⟩
  · simp only [hrun, if_neg (show ¬ true = false by decide)]
    refine forkEnqueue_spec h frame ⟨fun p hp => ?_, ha.sched, ha.tss, ha.pitTicks, ha.modules,
      ha.idle, ha.booted, ha.dropped, ha.forked, ha.exited⟩ hchild hfresh hhold'
      (hcopied.grown hgrown) ?_ ⟨hspent.pid, ?_, ?_, ?_⟩ ?_
    · rw [setPcb_pcbs, Function.update_of_ne (hne p hp)]
      exact ha.pcbs p hp
    · rw [setPcb_pcbs, Function.update_self, hpcb]
    · have hbefore := hspent.count
      rw [setPcb_store, Memory.ownedCount_grown hgrown]
      simp only
      omega
    · rw [hpages] at hcur
      rw [setPcb_store]
      simp only
      omega
    · -- The second allocation sees the first block among the live ones.
      rw [setPcb_store]
      simp only
      rcases hgrew with hsame | hcrowd
      · rw [hsame]
        exact hspent.grew
      · rw [hlive] at hcrowd
        have hle : k.store.heap.heapCurrent ≤ kk.store.heap.heapCurrent ∨
            k.store.heap.heapCurrent ≤ k.forkCrowd L := by
          rcases hspent.grew with hk | hk
          · exact .inl hk.ge
          · exact .inr hk
        refine .inr (hle.elim (fun hk => hk.trans hcrowd) id)
    · exact (hsince.kmalloc_failed hhold.store hgrown).slots hgrown.phys
  · simp only [hrun, if_true]
    rw [hpages] at hwhy
    rw [hpdt] at hhold'
    have hfreed := (hhold'.destroy hloaded).1.kfree
    have hgone : Aside k ((({ kk with store := s } : Kernel).withMem
        (s.mem.destroyUserSpace (4096 * d))).release child) :=
      ⟨ha.pcbs, ha.sched, ha.tss, ha.pitTicks, ha.modules, ha.idle, ha.booted, ha.dropped,
        ha.forked, ha.exited⟩
    refine .failed (h.aside hgone ?_) hgone (.inr (hstarved hwhy)) (.inl (hstarved hwhy))
      (.inr hspent.pid) ?_
    · rw [hpdt]
      exact hfreed
    · exact ((hsince.kmalloc_failed hhold.store hgrown).slots hgrown.phys).destroy
        hhold'.store.spaces

/-- The part from the copy of the address space on. -/
theorem forkSpace_spec (h : Inv L R safe k) (frame : SyscallFrame) (ha : Aside k kk)
    (hchild : child ≠ 0) (hfresh : child ∉ k.holders)
    (hhold : Holding L R safe k.current.pdt ((child, sizeofPcb) :: k.allBlocks) k.allDirs kk.store)
    {lo : Nat} (hgrown : MemGrown k.store.mem kk.store.mem lo)
    (hpcb : kk.pcbs child = childPcb k.current k.sched.nextPid)
    (hlive : kk.store.heap.live = (child, sizeofPcb) :: k.store.heap.live)
    (hspent : ForkSpent L k kk 0)
    (hpage : kk.store.heap.heapCurrent ≤ k.store.heap.heapCurrent + 4096)
    (hsince : GrownSince L k.store.mem (fun _ => False) (pageIndex kk.store.heap.heapCurrent)
      kk.store.mem) :
    ForkResult L R safe k frame (kk.forkSpace L frame child k.sched.nextPid) := by
  obtain ⟨hpdt, hloaded⟩ := h.loaded
  have hcount := hspent.count
  have hspaces := hhold.store.spaces
  have hpde := hspaces.pde.1
  have hcr3 : ¬ kk.store.mem.pfa.Free (kk.store.mem.cr3 / 4096) := by
    rw [hpdt] at hhold
    exact hhold.cr3_not_free hloaded
  have hdemand : Memory.cloneDemand kk.store.mem.phys (k.dirOf k.sched.currentPcb) =
      Memory.cloneDemand k.store.mem.phys (k.dirOf k.sched.currentPcb) := by
    rw [hgrown.phys]
  unfold forkSpace
  rw [ha.current, hpdt]
  rcases Memory.cloneUserSpace_spec hspaces.ok hpde (hspaces.settled hloaded) hcr3 with
    ⟨d, m, hrun, hd, hbuilt, hpages, hcount', -⟩ | ⟨m, hrun, hrestored, hless⟩
  · simp only [hrun, if_neg (show ¬ 4096 * d = 0 by omega)]
    refine forkStack_spec h frame ⟨ha.pcbs, ha.sched, ha.tss, ha.pitTicks, ha.modules,
      ha.idle, ha.booted, ha.dropped, ha.forked, ha.exited⟩ hchild hfresh (hhold.built hbuilt)
      (Memory.SpaceCopied.of_grown hgrown ⟨hd, hpages, hbuilt.fresh, hbuilt.filled,
        hbuilt.phys⟩) hpcb hlive ⟨hspent.pid, ?_, hspent.pages, hspent.grew⟩ hpage (fun hwhy => ?_)
      (hsince.built hbuilt)
    · have howned := hbuilt.freeCount_add
      simp only [withMem]
      omega
    · simp only [withMem] at hwhy
      unfold ForkStarved
      omega
  · simp only [hrun, if_true]
    have hfreed := (hhold.restored hrestored).kfree
    have hgone : Aside k ((kk.withMem m).release child) :=
      ⟨ha.pcbs, ha.sched, ha.tss, ha.pitTicks, ha.modules, ha.idle, ha.booted, ha.dropped,
        ha.forked, ha.exited⟩
    have hstarved : k.ForkStarved := by
      unfold ForkStarved
      omega
    obtain ⟨-, htop, -⟩ := hhold.store.heap_bounds
    have hpages : pageIndex kk.store.heap.heapCurrent ≤ 1023 := by
      unfold pageIndex
      omega
    exact .failed (h.aside hgone hfreed) hgone (.inr hstarved) (.inl hstarved) (.inr hspent.pid)
      ((hsince.restored hrestored).mono hpages)

/-- A fork that fails gives everything back; one that succeeds makes a child with a copy
of the parent's pages. -/
theorem sysFork_spec (h : Inv L R safe k) (frame : SyscallFrame) :
    ForkResult L R safe k frame (k.sysFork L frame) := by
  have hpages : corePages (unitsFor sizeofPcb) = 1 := by decide
  unfold sysFork
  rcases h.holding.kmalloc (show 1 ≤ sizeofPcb by decide) (show sizeofPcb ≤ 0x3FF000 by decide) with
    ⟨child, s, hrun, hchild, hnew, hhold, hgrown, hlive, hcount, hle, hcur, hgrew⟩ |
    ⟨s, hrun, hhold, hgrown, hwhy⟩
  · have hfresh : child ∉ k.holders := fun hmem => hnew _ (h.live hmem).1 rfl
    simp only [if_neg h.current_ne, hrun, if_neg hchild]
    refine forkSpace_spec h frame ⟨fun p hp => ?_, rfl, rfl, rfl, rfl, rfl, rfl, rfl, rfl, rfl⟩
      hchild hfresh hhold hgrown ?_ hlive ⟨rfl, hcount, ?_, ?_⟩ (by rw [hpages] at hcur; exact hcur)
      ((GrownSince.refl L _ _).kmalloc h.holding.store hhold.store hgrown hcount hle)
    · have hne : p ≠ child := fun hpc => hfresh (hpc ▸ hp)
      rw [setPcb_pcbs, Function.update_of_ne hne]
      rfl
    · rw [setPcb_pcbs, Function.update_self]
      rfl
    · rw [hpages] at hcur
      simp only [setPcb_store, schedulerAllocatePid]
      omega
    · refine hgrew.imp_right fun hcrowd => hcrowd.trans ?_
      exact Nat.add_le_add_left (crowded_le (by decide) _) _
  · simp only [if_neg h.current_ne, hrun, if_true]
    have hgone : Aside k { k with store := s } :=
      ⟨fun _ _ => rfl, rfl, rfl, rfl, rfl, rfl, rfl, rfl, rfl, rfl⟩
    have hstarved : k.ForkStarved := by
      unfold ForkStarved
      omega
    exact .failed (h.aside hgone hhold) hgone (.inr hstarved) (.inl hstarved) (.inl rfl)
      ((GrownSince.refl L _ _).kmalloc_failed h.holding.store hgrown)

end Fork

end Kernel

end SoKernel
