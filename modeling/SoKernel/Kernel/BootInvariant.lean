import SoKernel.Kernel.BootAllocator
import SoKernel.Kernel.Preservation
import SoKernel.Process.Making

/-!
# Boot establishes the invariant

Boot makes one process for each module as long as memory lasts.  Each pass of the loop
keeps the invariant of boot, and the jump to user mode turns it into the invariant of the
running kernel.

Main results:

- Theorem {lit}`Booting.pass`: one pass of the loop over the modules.
- Theorem {lit}`kmain_inv`: the kernel that {lit}`kmain` hands to user mode satisfies the
  invariant.
- Theorem {lit}`kmain_room`: with enough memory each module becomes a process and no allocation
  fails.
-/

namespace SoKernel

open Kernel

variable {L : Layout} {B : BootInfo}

/-! ## Before the first process -/

/-- The frames that are in use before the first process is made. -/
def Reserved (L : Layout) (mods : List MultibootModule) (f : Nat) : Prop :=
  (bootPfa L mods).used f = true

/-- The store before the first process. -/
theorem bootStore_holding (L : Layout) (B : BootInfo) :
    Holding L (Reserved L B.mods) (Plenty (bootStore L B)) L.pageDirectoryPhys [] []
      (bootStore L B) := by
  obtain ⟨hstart, htotal, hexh⟩ := bootPfa_frame L B.mods
  have hlo := L.image_lo
  have hhi := L.image_hi
  have htable := L.table_aligned
  have htable' := L.table_hi
  have hwindow : PfaWindow (bootPfa L B.mods) := by
    refine ⟨?_, by omega⟩
    simp only [pageAlignUp, u32] at hstart
    omega
  have hpde : (bootStore L B).mem.pageDirectory 768 = L.kernelPageTablePhys + 3 := by
    have hentry : (bootStore L B).mem.pageDirectory 768 = L.kernelPageTablePhys ||| 3 := by
      simp only [bootStore, Memory.pagingInit, Function.update_self]
    have hframe : L.kernelPageTablePhys = 4096 * (L.kernelPageTablePhys / 4096) := by omega
    rw [hentry, hframe, frame_or_flags _ (by norm_num)]
  -- The pages of the heap are not mapped yet.
  have hheap : ∀ f, ¬ HeapFrame L (bootStore L B).mem f := by
    rintro f ⟨i, hlow, hlt, hi⟩
    have hindex : pageIndex L.heapStart = (L.kernelPhysicalEnd + 4096 - 1) / 4096 := by
      simp only [pageIndex, Layout.heapStart, pageAlignUp, u32]
      omega
    change (if i < (L.kernelPhysicalEnd + 4096 - 1) / 4096 ∧ i < 1023 then (i * 4096) ||| 3
      else if i ≤ 1023 then 0 else 0) = 4096 * f + 3 at hi
    rw [if_neg (by omega), if_pos (by omega)] at hi
    omega
  have hclosed : (bootStore L B).mem.WindowClosed := by
    change (if 1023 < (L.kernelPhysicalEnd + 4096 - 1) / 4096 ∧ 1023 < 1023 then (1023 * 4096) ||| 3
      else if 1023 ≤ 1023 then 0 else 0) = 0
    rw [if_neg (by omega), if_pos (by omega)]
  refine ⟨⟨⟨[], .inr ⟨⟨rfl, rfl, rfl, rfl, rfl, hwindow⟩, rfl⟩⟩, ?_, rfl, rfl⟩, List.Perm.nil,
    List.nodup_nil, by simp [bootStore, Heap.kheapInit], rfl⟩
  refine ⟨⟨hclosed, hwindow⟩, ⟨?_, ?_⟩, by simp, List.Pairwise.nil, fun f hf => ⟨?_, by simp⟩,
    by simp⟩
  · rw [hpde]
    omega
  · rw [hpde]
    omega
  · rcases hf with hf | hf
    · exact hf
    · exact absurd hf (hheap f)

/-! ## The loop over the modules -/

namespace Kernel

/-- What boot does not touch. -/
structure BootFixed (L : Layout) (B : BootInfo) (k : Kernel) : Prop where
  sched : k.sched = { (bootKernel L B).sched with
    nextPid := k.sched.nextPid
    ready := k.sched.ready }
  pitTicks : k.pitTicks = 0
  modules : k.modules = moduleLoaderSetModules B.mods
  statLog : k.statLog = []
  idle : k.idle = false
  forked : k.forked = []
  exited : k.exited = []

/-- The pids handed out so far, at most {lit}`n`, are distinct and below the counter. -/
structure BootPids (n : Nat) (k : Kernel) : Prop where
  counter : 1 ≤ k.sched.nextPid ∧ k.sched.nextPid ≤ n + 1
  below : ∀ p ∈ k.booted, 1 ≤ (k.pcbs p).pid ∧ (k.pcbs p).pid < k.sched.nextPid
  distinct : (k.booted.map fun p => (k.pcbs p).pid).Nodup

/-- The burst fields of a process that has not run: a prediction of one tick, and no burst. -/
structure NeverRan (b : Pcb) : Prop where
  burst : b.burstTime = 0
  predicted : b.predictedBurst = 1
  dispatched : b.lastDispatchTick = 0

/-- The kernel after {lit}`n` passes of the loop, with {lit}`first_pcb`. -/
structure Booting (L : Layout) (B : BootInfo) (n first : Nat) (k : Kernel) : Prop where
  holding : Holding L (Reserved L B.mods) (Plenty k.store) L.pageDirectoryPhys
    ((k.booted ++ k.dropped).flatMap k.blocks) (k.booted.map k.dirOf) k.store
  aligned : ∀ p ∈ k.booted, (k.pcbs p).pdt = 4096 * k.dirOf p
  ready : ∀ p ∈ k.booted, (k.pcbs p).state = .ready
  bursts : ∀ p ∈ k.booted, NeverRan (k.pcbs p)
  queue : k.booted = (if first = 0 then [] else [first]) ++ k.sched.ready.toList
  none : first = 0 → k.sched.ready.toList = []
  fixed : BootFixed L B k
  pids : BootPids n k

section Boot

variable {n first : Nat} {k k' : Kernel}

theorem booting_start (L : Layout) (B : BootInfo) : Booting L B 0 0 (bootKernel L B) := by
  refine ⟨bootStore_holding L B, ?_, ?_, ?_, ?_, ?_, ⟨rfl, rfl, rfl, rfl, rfl, rfl, rfl⟩,
    ⟨⟨le_rfl, le_rfl⟩, ?_, ?_⟩⟩
  · simp [bootKernel]
  · simp [bootKernel]
  · simp [bootKernel]
  · simp [bootKernel]
  · simp [bootKernel]
  · simp [bootKernel]
  · simp [bootKernel]

/-- The heap blocks of the processes made so far are live. -/
theorem Booting.live (h : Booting L B n first k) {p : Nat} (hp : p ∈ k.booted ++ k.dropped) :
    (p, sizeofPcb) ∈ k.store.heap.live :=
  h.holding.blocks.mem_iff.2 (List.mem_flatMap.2 ⟨p, hp, by simp [Kernel.blocks]⟩)

/-- The pid counter does not wrap during boot. -/
theorem Booting.nextPid (h : Booting L B n first k) (hn : n < B.mods.length) :
    k.schedulerAllocatePid.2.sched.nextPid = k.sched.nextPid + 1 := by
  have hcount := B.mods_count
  have hpid := h.pids.counter
  have hnext : u32 (k.sched.nextPid + 1) = k.sched.nextPid + 1 := Nat.mod_eq_of_lt (by omega)
  simp only [schedulerAllocatePid, hnext]
  rw [if_neg (by omega)]

/-- What a pass leaves of the processes made before it. -/
structure BootViews (L : Layout) (B : BootInfo) (k k' : Kernel) : Prop where
  booted : k'.booted = k.booted
  dropped : k'.dropped = k.dropped
  ready : k'.sched.ready = k.sched.ready
  pcb : ∀ p ∈ k.booted ++ k.dropped, k'.pcbs p = k.pcbs p
  blocks : (k.booted ++ k.dropped).flatMap k'.blocks = (k.booted ++ k.dropped).flatMap k.blocks
  dirs : k.booted.map k'.dirOf = k.booted.map k.dirOf
  pids : (k.booted.map fun p => (k'.pcbs p).pid) = k.booted.map fun p => (k.pcbs p).pid
  fixed : BootFixed L B k'

theorem Booting.views (h : Booting L B n first k) (hb : Beside k k') : BootViews L B k k' := by
  have hpcbs : ∀ p ∈ k.booted ++ k.dropped, k'.pcbs p = k.pcbs p := fun p hp =>
    hb.pcbs _ (h.live hp)
  have hpcb : ∀ p ∈ k.booted, k'.pcbs p = k.pcbs p := fun p hp =>
    hpcbs p (List.mem_append_left _ hp)
  refine ⟨by rw [hb.rest], by rw [hb.rest], by rw [hb.sched], hpcbs, ?_, ?_, ?_, ?_⟩
  · exact List.flatMap_congr fun p hp => by simp only [Kernel.blocks, hpcbs p hp]
  · exact List.map_congr_left fun p hp => by simp only [dirOf, hpcb p hp]
  · exact List.map_congr_left fun p hp => by rw [hpcb p hp]
  · have hfixed := h.fixed
    refine ⟨?_, ?_, ?_, ?_, ?_, ?_, ?_⟩
    · rw [hb.sched, hfixed.sched]
    · rw [hb.rest]
      exact hfixed.pitTicks
    · rw [hb.rest]
      exact hfixed.modules
    · rw [hb.rest]
      exact hfixed.statLog
    · rw [hb.rest]
      exact hfixed.idle
    · rw [hb.rest]
      exact hfixed.forked
    · rw [hb.rest]
      exact hfixed.exited

/-- A pass that adds no process to the queue. -/
theorem Booting.skip (h : Booting L B n first k) (hn : n < B.mods.length) (hb : Beside k k')
    {dropped : List Nat}
    (hhold : Holding L (Reserved L B.mods) (Plenty k'.store) L.pageDirectoryPhys
      ((k'.booted ++ dropped).flatMap k'.blocks) (k'.booted.map k'.dirOf) k'.store) :
    Booting L B (n + 1) first { k' with dropped := dropped } := by
  have hv := h.views hb
  have hpcb : ∀ p ∈ k.booted, k'.pcbs p = k.pcbs p := fun p hp =>
    hv.pcb p (List.mem_append_left _ hp)
  have hcounter := h.pids.counter
  have hnext : k.sched.nextPid ≤ k'.sched.nextPid ∧ k'.sched.nextPid ≤ k.sched.nextPid + 1 := by
    have := h.nextPid hn
    rcases hb.pid with hp | hp <;> omega
  have hfixed := hv.fixed
  refine ⟨hhold, fun p hp => ?_, fun p hp => ?_, fun p hp => ?_, ?_, ?_, ⟨hfixed.sched, hfixed.pitTicks,
    hfixed.modules, hfixed.statLog, hfixed.idle, hfixed.forked, hfixed.exited⟩,
    ⟨by simp only; omega, fun p hp => ?_, ?_⟩⟩
  · change p ∈ k'.booted at hp
    rw [hv.booted] at hp
    change (k'.pcbs p).pdt = 4096 * ((k'.pcbs p).pdt / 4096)
    rw [hpcb p hp]
    exact h.aligned p hp
  · change p ∈ k'.booted at hp
    rw [hv.booted] at hp
    change (k'.pcbs p).state = _
    rw [hpcb p hp]
    exact h.ready p hp
  · change p ∈ k'.booted at hp
    rw [hv.booted] at hp
    change NeverRan (k'.pcbs p)
    rw [hpcb p hp]
    exact h.bursts p hp
  · change k'.booted = _ ++ k'.sched.ready.toList
    rw [hv.booted, hv.ready]
    exact h.queue
  · change first = 0 → k'.sched.ready.toList = []
    rw [hv.ready]
    exact h.none
  · change p ∈ k'.booted at hp
    rw [hv.booted] at hp
    change 1 ≤ (k'.pcbs p).pid ∧ (k'.pcbs p).pid < k'.sched.nextPid
    rw [hpcb p hp]
    have := h.pids.below p hp
    omega
  · change (k'.booted.map fun p => (k'.pcbs p).pid).Nodup
    rw [hv.booted, hv.pids]
    exact h.pids.distinct

/-- A pass that adds a process. -/
theorem Booting.join (h : Booting L B n first k) (hn : n < B.mods.length) (hb : Beside k k')
    {pcb d base first' : Nat} (ready : RingBuffer Nat readyQueueCapacity)
    (hpcb : k'.pcbs pcb = { madePcb k.sched.nextPid d base with esp := 0xBFFFFFFB })
    (hpid : k'.sched.nextPid = k.schedulerAllocatePid.2.sched.nextPid)
    (hhold : Holding L (Reserved L B.mods) (Plenty k'.store) L.pageDirectoryPhys
      ((base, kernelStackSize) :: (pcb, sizeofPcb) :: (k.booted ++ k.dropped).flatMap k.blocks)
      (d :: k.booted.map k.dirOf) k'.store)
    (hqueue : k.booted ++ [pcb] = (if first' = 0 then [] else [first']) ++ ready.toList)
    (hnone : first' ≠ 0) :
    Booting L B (n + 1) first' { k' with
      sched := { k'.sched with ready := ready }
      booted := k'.booted ++ [pcb] } := by
  have hv := h.views hb
  have hold : ∀ p ∈ k.booted, k'.pcbs p = k.pcbs p := fun p hp =>
    hv.pcb p (List.mem_append_left _ hp)
  have hnext := h.nextPid hn
  have hcounter := h.pids.counter
  have hfixed := hv.fixed
  have hblock : k'.blocks pcb = [(pcb, sizeofPcb), (base, kernelStackSize)] := by
    rw [Kernel.blocks, hpcb]
    rfl
  have hdir : k'.dirOf pcb = d := by
    rw [dirOf, hpcb]
    exact Nat.mul_div_cancel_left _ (by norm_num)
  refine ⟨⟨?_, ?_, hhold.pointers, hhold.nonzero, hhold.cr3⟩, fun p hp => ?_, fun p hp => ?_,
    fun p hp => ?_, ?_, fun hz => absurd hz hnone, ⟨?_, hfixed.pitTicks, hfixed.modules, hfixed.statLog, hfixed.idle,
      hfixed.forked, hfixed.exited⟩, ⟨by simp only; omega, fun p hp => ?_, ?_⟩⟩
  · change StoreOk L _ _ k'.store ((k'.booted ++ [pcb]).map k'.dirOf)
    rw [hv.booted, List.map_append, hv.dirs, List.map_singleton, hdir]
    exact hhold.store.perm (List.perm_append_singleton _ _).symm
  · change k'.store.heap.live.Perm (((k'.booted ++ [pcb]) ++ k'.dropped).flatMap k'.blocks)
    have hmove : (pcb :: (k.booted ++ k.dropped)).Perm ((k.booted ++ [pcb]) ++ k.dropped) := by
      rw [List.append_assoc, List.singleton_append]
      exact List.perm_middle.symm
    have hall := hmove.flatMap_right k'.blocks
    rw [List.flatMap_cons, hv.blocks, hblock] at hall
    rw [hv.booted, hv.dropped]
    exact (hhold.blocks.trans (List.Perm.swap _ _ _)).trans hall
  · change p ∈ k'.booted ++ [pcb] at hp
    rw [hv.booted, List.mem_append, List.mem_singleton] at hp
    change (k'.pcbs p).pdt = 4096 * (k'.dirOf p)
    rcases hp with hp | rfl
    · rw [dirOf, hold p hp]
      exact h.aligned p hp
    · rw [hdir, hpcb]
      rfl
  · change p ∈ k'.booted ++ [pcb] at hp
    rw [hv.booted, List.mem_append, List.mem_singleton] at hp
    change (k'.pcbs p).state = _
    rcases hp with hp | rfl
    · rw [hold p hp]
      exact h.ready p hp
    · rw [hpcb]
      rfl
  · change p ∈ k'.booted ++ [pcb] at hp
    rw [hv.booted, List.mem_append, List.mem_singleton] at hp
    change NeverRan (k'.pcbs p)
    rcases hp with hp | rfl
    · rw [hold p hp]
      exact h.bursts p hp
    · rw [hpcb]
      exact ⟨rfl, rfl, rfl⟩
  · change k'.booted ++ [pcb] = _
    rw [hv.booted]
    exact hqueue
  · change { k'.sched with ready := ready } = _
    rw [hfixed.sched]
  · change p ∈ k'.booted ++ [pcb] at hp
    rw [hv.booted, List.mem_append, List.mem_singleton] at hp
    change 1 ≤ (k'.pcbs p).pid ∧ (k'.pcbs p).pid < k'.sched.nextPid
    rcases hp with hp | rfl
    · rw [hold p hp]
      have := h.pids.below p hp
      omega
    · rw [hpcb]
      change 1 ≤ k.sched.nextPid ∧ k.sched.nextPid < k'.sched.nextPid
      omega
  · change ((k'.booted ++ [pcb]).map fun p => (k'.pcbs p).pid).Nodup
    rw [hv.booted, List.map_append, hv.pids, List.map_singleton, hpcb]
    refine List.nodup_append.2 ⟨h.pids.distinct, List.nodup_singleton _, ?_⟩
    intro q hq r hr hqr
    rw [List.mem_singleton] at hr
    obtain ⟨p, hp, rfl⟩ := List.mem_map.1 hq
    have hlt := (h.pids.below p hp).2
    rw [hqr, hr] at hlt
    exact absurd hlt (lt_irrefl _)

/-- One pass of the loop over the modules. -/
theorem Booting.pass (h : Booting L B n first k) (hn : n < B.mods.length) {mod : MultibootModule}
    {r : Nat × Kernel} (hrun : bootModule L (first, k) mod = some r) :
    Booting L B (n + 1) r.1 r.2 := by
  have hspec := createPcbGrubModules_spec h.holding mod.modStart mod.modEnd
  unfold bootModule at hrun
  generalize k.createPcbGrubModules L mod.modStart mod.modEnd = made at hspec hrun
  cases hspec with
  | fault high => cases hrun
  | failed hold beside short =>
      simp only [if_true, Option.some.injEq] at hrun
      rw [← hrun]
      have hv := h.views beside
      refine h.skip hn beside ?_
      rw [hv.booted, hv.dropped, hv.blocks, hv.dirs]
      exact hold
  | @made k' m₀ pcb d base x made =>
      obtain ⟨pcb_ne, -, hold, beside, pcb_eq, pid_eq, -⟩ := made
      have hv := h.views beside
      simp only [if_neg pcb_ne] at hrun
      by_cases hfirst : first = 0
      · simp only [if_pos hfirst, Option.some.injEq] at hrun
        rw [← hrun]
        refine h.join hn beside k'.sched.ready pcb_eq pid_eq hold ?_ pcb_ne
        rw [if_neg pcb_ne, hv.ready, h.none hfirst, h.queue, if_pos hfirst, h.none hfirst]
        rfl
      · simp only [if_neg hfirst] at hrun
        -- The new process is marked ready already.
        have hsame : k'.setPcb pcb { k'.pcbs pcb with state := .ready } = k' := by
          have hstate : ({ k'.pcbs pcb with state := .ready } : Pcb) = k'.pcbs pcb := by
            rw [pcb_eq]
            rfl
          rw [hstate, setPcb, Function.update_eq_self]
        rw [hsame] at hrun
        rcases schedulerEnqueueReady_cases k' pcb_ne with ⟨-, ready, hlist, henq⟩ | ⟨-, henq⟩
        · simp only [henq, Option.some.injEq] at hrun
          rw [← hrun]
          refine h.join hn beside ready pcb_eq pid_eq hold ?_ hfirst
          rw [hlist, hv.ready, h.queue, if_neg hfirst, List.append_assoc]
        · simp only [henq, Option.some.injEq] at hrun
          rw [← hrun]
          refine h.skip hn beside ?_
          have hblock : k'.blocks pcb = [(pcb, sizeofPcb), (base, kernelStackSize)] := by
            rw [Kernel.blocks, pcb_eq]
            rfl
          refine ⟨⟨hold.store.heap, ?_, hold.store.stray, hold.store.loaded⟩, ?_, hold.pointers,
            hold.nonzero, hold.cr3⟩
          · rw [hv.booted, hv.dirs]
            exact hold.store.spaces.tail
          · rw [hv.booted, hv.dropped, ← List.append_assoc, List.flatMap_append, hv.blocks,
              List.flatMap_singleton, hblock]
            refine (hold.blocks.trans (List.Perm.swap _ _ _)).trans ?_
            change ([(pcb, sizeofPcb), (base, kernelStackSize)] ++ _).Perm _
            exact List.perm_append_comm

/-- Some passes of the loop. -/
theorem Booting.loop {mods : List MultibootModule} {n first : Nat} {k : Kernel}
    (h : Booting L B n first k) (hn : n + mods.length ≤ B.mods.length) {r : Nat × Kernel}
    (hrun : mods.foldlM (bootModule L) (first, k) = some r) :
    Booting L B (n + mods.length) r.1 r.2 := by
  induction mods generalizing n first k with
  | nil =>
      rw [List.foldlM_nil] at hrun
      cases hrun
      exact h
  | cons mod rest ih =>
      rw [List.foldlM_cons] at hrun
      cases hpass : bootModule L (first, k) mod with
      | none =>
          rw [hpass] at hrun
          cases hrun
      | some s =>
          rw [hpass] at hrun
          rw [List.length_cons] at hn
          have hrest := ih (h.pass (by omega) hpass) (by omega) hrun
          rw [List.length_cons, Nat.add_comm rest.length 1, ← Nat.add_assoc]
          exact hrest

/-- The state at the end of the loop. -/
theorem booting_all {r : Nat × Kernel}
    (hrun : B.mods.foldlM (bootModule L) (0, bootKernel L B) = some r) :
    Booting L B B.mods.length r.1 r.2 := by
  have hloop := (booting_start L B).loop (Nat.zero_add _).le hrun
  rw [Nat.zero_add] at hloop
  exact hloop

/-- {lit}`kmain` runs the first process that the loop has made. -/
theorem kmain_of_loop {first : Nat} {k : Kernel}
    (hloop : B.mods.foldlM (bootModule L) (0, bootKernel L B) = some (first, k))
    (hfirst : first ≠ 0) : kmain L B = some (k.runUserModeModule first) := by
  simp only [kmain, hloop, if_neg hfirst]

/-- When the kernel comes to user mode, the call for the first module came back. -/
theorem kmain_first_call {k₀ : Kernel} {mod : MultibootModule} {rest : List MultibootModule}
    (hboot : kmain L B = some k₀) (hmods : B.mods = mod :: rest) :
    ∃ pcb k', (bootKernel L B).createPcbGrubModules L mod.modStart mod.modEnd = some (pcb, k') := by
  cases hmade : (bootKernel L B).createPcbGrubModules L mod.modStart mod.modEnd with
  | none =>
      have hpass : bootModule L (0, bootKernel L B) mod = none := by
        simp only [bootModule, hmade]
      unfold kmain at hboot
      rw [hmods, List.foldlM_cons, hpass] at hboot
      cases hboot
  | some r => exact ⟨r.1, r.2, rfl⟩

/-- What {lit}`kmain` hands to user mode: the state at the end of the loop, with the first
process dispatched. -/
theorem kmain_cases {k₀ : Kernel} (hboot : kmain L B = some k₀) :
    ∃ first k, Booting L B B.mods.length first k ∧ first ≠ 0 ∧ k₀ = k.runUserModeModule first := by
  unfold kmain at hboot
  cases hloop : B.mods.foldlM (bootModule L) (0, bootKernel L B) with
  | none =>
      rw [hloop] at hboot
      cases hboot
  | some r =>
      rw [hloop] at hboot
      obtain ⟨first, k⟩ := r
      simp only at hboot
      split at hboot
      · cases hboot
      · rename_i hfirst
        rw [Option.some.injEq] at hboot
        exact ⟨first, k, booting_all hloop, hfirst, hboot.symm⟩

/-- The dispatch of the first process. -/
theorem runUserModeModule_eq (k : Kernel) {p : Nat} (hp : p ≠ 0) :
    k.runUserModeModule p = { k with
      store := ⟨k.store.mem.updateCr3 (k.pcbs p).pdt, k.store.heap⟩
      tssEsp0 := (k.pcbs p).kernelEsp0
      sched := { k.sched with currentPcb := p }
      pcbs := Function.update k.pcbs p { k.pcbs p with
        lastDispatchTick := k.pitTicks
        state := .running } } := by
  simp [runUserModeModule, schedulerSetCurrent, hp, withMem, setPcb]

/-- {lit}`kmain` establishes the invariant. -/
theorem kmain_inv {k₀ : Kernel} (hboot : kmain L B = some k₀) :
    Inv L (Reserved L B.mods) (k₀.store.mem.pfa.exhausted = false) k₀ := by
  obtain ⟨first, k, h, hfirst, rfl⟩ := kmain_cases hboot
  have hqueue := h.queue
  rw [if_neg hfirst, List.singleton_append] at hqueue
  have hmem : first ∈ k.booted := by
    rw [hqueue]
    exact List.mem_cons_self
  rw [runUserModeModule_eq k hfirst]
  -- The dispatch changes the state and the tick of one control block.
  have hpcbs : ∀ p, (Function.update k.pcbs first { k.pcbs first with
      lastDispatchTick := k.pitTicks
      state := .running } p).pdt = (k.pcbs p).pdt ∧
      (Function.update k.pcbs first { k.pcbs first with
        lastDispatchTick := k.pitTicks
        state := .running } p).kernelStackBase = (k.pcbs p).kernelStackBase := by
    intro p
    by_cases hp : p = first
    · subst hp
      simp
    · simp [Function.update_of_ne hp]
  refine ⟨⟨?_, ?_, h.holding.pointers, h.holding.nonzero, ?_⟩, fun p hp => ?_, ?_, ?_⟩
  · have hdirs : ∀ ps : List Nat, (ps.map fun p => (Function.update k.pcbs first
        { k.pcbs first with lastDispatchTick := k.pitTicks, state := .running } p).pdt / 4096) =
          ps.map k.dirOf := fun ps =>
      List.map_congr_left fun p _ => by rw [(hpcbs p).1]; rfl
    change StoreOk L _ _ _ ((first :: k.sched.ready.toList).map fun p =>
      (Function.update k.pcbs first
        { k.pcbs first with lastDispatchTick := k.pitTicks, state := .running } p).pdt / 4096)
    rw [hdirs, ← hqueue]
    exact h.holding.store.updateCr3 _
  · have hblocks : ∀ ps : List Nat, (ps.flatMap fun p => [(p, sizeofPcb),
        ((Function.update k.pcbs first { k.pcbs first with
          lastDispatchTick := k.pitTicks
          state := .running } p).kernelStackBase, kernelStackSize)]) = ps.flatMap k.blocks :=
      fun ps => List.flatMap_congr fun p _ => by rw [(hpcbs p).2]; rfl
    change k.store.heap.live.Perm (((first :: k.sched.ready.toList) ++
      (k.exited ++ k.dropped)).flatMap fun p => [(p, sizeofPcb), ((Function.update k.pcbs first
        { k.pcbs first with lastDispatchTick := k.pitTicks, state := .running }
          p).kernelStackBase, kernelStackSize)])
    rw [hblocks, ← hqueue, h.fixed.exited, List.nil_append]
    exact h.holding.blocks
  · exact ((hpcbs first).1).symm
  · change p ∈ first :: k.sched.ready.toList at hp
    rw [← hqueue] at hp
    change (Function.update k.pcbs first _ p).pdt = 4096 * ((Function.update k.pcbs first _ p).pdt / 4096)
    rw [(hpcbs p).1]
    exact h.aligned p hp
  · simp [current]
  · change ((first :: k.sched.ready.toList) ++ k.exited).Perm (k.booted ++ k.forked)
    rw [← hqueue, h.fixed.exited, h.fixed.forked]

/-- The rest of what {lit}`kmain` hands to user mode. -/
structure Started (B : BootInfo) (k₀ : Kernel) : Prop where
  booted : k₀.booted = k₀.members
  running : k₀.current.state = .running
  ready : ∀ p ∈ k₀.sched.ready.toList, (k₀.pcbs p).state = .ready
  bursts : ∀ p ∈ k₀.members, NeverRan (k₀.pcbs p)
  pids : ∀ p ∈ k₀.members, 1 ≤ (k₀.pcbs p).pid ∧ (k₀.pcbs p).pid < k₀.sched.nextPid
  distinct : (k₀.members.map fun p => (k₀.pcbs p).pid).Nodup
  counter : k₀.sched.nextPid ≤ B.mods.length + 1
  preemption : k₀.sched.preemptionEnabled = true
  policy : k₀.sched.schedulingPolicy = B.policy
  quantum : k₀.sched.quantumTicks = quantumOf B.quantum ∧
    k₀.sched.remainingTicks = quantumOf B.quantum
  pitTicks : k₀.pitTicks = 0
  modules : k₀.modules = moduleLoaderSetModules B.mods
  statLog : k₀.statLog = []
  idle : k₀.idle = false
  forked : k₀.forked = []
  exited : k₀.exited = []

theorem kmain_started {k₀ : Kernel} (hboot : kmain L B = some k₀) : Started B k₀ := by
  have hinv := kmain_inv hboot
  obtain ⟨first, k, h, hfirst, hk₀⟩ := kmain_cases hboot
  have hqueue := h.queue
  rw [if_neg hfirst, List.singleton_append] at hqueue
  rw [runUserModeModule_eq k hfirst] at hk₀
  have hmembers : k₀.members = k.booted := by
    rw [hk₀, hqueue]
    rfl
  have hpid : ∀ p, (k₀.pcbs p).pid = (k.pcbs p).pid := by
    intro p
    rw [hk₀]
    by_cases hp : p = first
    · subst hp
      simp
    · simp [Function.update_of_ne hp]
  have hmap : (k₀.members.map fun p => (k₀.pcbs p).pid) = k.booted.map fun p => (k.pcbs p).pid := by
    rw [hmembers]
    exact List.map_congr_left fun p _ => hpid p
  have hnext : k₀.sched.nextPid = k.sched.nextPid := by rw [hk₀]
  refine ⟨?_, ?_, fun p hp => ?_, fun p hp => ?_, fun p hp => ?_, ?_, ?_, ?_, ?_, ?_, ?_, ?_, ?_, ?_,
    ?_, ?_⟩
  · rw [hmembers, hk₀]
  · rw [hk₀]
    simp [current]
  · have hne : p ≠ first := by
      rintro rfl
      refine (List.nodup_cons.1 hinv.members_nodup).1 ?_
      rw [show k₀.sched.currentPcb = p by rw [hk₀]]
      exact hp
    have hp' : p ∈ k.sched.ready.toList := by
      rw [hk₀] at hp
      exact hp
    rw [hk₀]
    change (Function.update k.pcbs first _ p).state = _
    rw [Function.update_of_ne hne]
    refine h.ready p ?_
    rw [hqueue]
    exact List.mem_cons_of_mem _ hp'
  · rw [hmembers] at hp
    have hnever := h.bursts p hp
    rw [hk₀]
    by_cases hfirst' : p = first
    · -- The first process is dispatched at tick 0.
      subst hfirst'
      simp only [Function.update_self]
      exact ⟨hnever.burst, hnever.predicted, h.fixed.pitTicks⟩
    · simp only [Function.update_of_ne hfirst']
      exact hnever
  · rw [hpid, hnext]
    rw [hmembers] at hp
    exact h.pids.below p hp
  · rw [hmap]
    exact h.pids.distinct
  · rw [hnext]
    exact h.pids.counter.2
  · rw [hk₀]
    change k.sched.preemptionEnabled = true
    rw [h.fixed.sched]
    rfl
  · rw [hk₀]
    change k.sched.schedulingPolicy = _
    rw [h.fixed.sched]
    rfl
  · rw [hk₀]
    change k.sched.quantumTicks = _ ∧ k.sched.remainingTicks = _
    rw [h.fixed.sched]
    exact ⟨rfl, rfl⟩
  · rw [hk₀]
    exact h.fixed.pitTicks
  · rw [hk₀]
    exact h.fixed.modules
  · rw [hk₀]
    exact h.fixed.statLog
  · rw [hk₀]
    exact h.fixed.idle
  · rw [hk₀]
    exact h.fixed.forked
  · rw [hk₀]
    exact h.fixed.exited

/-! ## Boots with enough memory -/

/-- Memory and heap for {lit}`n` more processes: each takes at most three heap pages and six
further frames.  Some heap pages and {lit}`spare` frames are left after them. -/
structure BootRoom (spare n : Nat) (s : Store) : Prop where
  plenty : Plenty s
  frames : 9 * n + spare ≤ s.mem.pfa.freeCount
  heap : s.heap.heapCurrent + 4096 * (3 * n) + 4096 * 12 ≤ 0xC03FF000

/-- The loop does not read a module above 4 MB. -/
def Readable (mod : MultibootModule) : Prop :=
  mod.modStart + Memory.copySize mod.modStart mod.modEnd ≤ 0x400000

/-- A process that has been made goes to the end of the queue, when there is room. -/
theorem Made.enqueued {R : Nat → Prop} {c : Nat} {bs : List (Nat × Nat)} {ds : List Nat}
    (mod : MultibootModule) {m₀ : Memory} {pcb d base : Nat} {x : BootFrames}
    (h : Made L R c bs ds k mod.modStart mod.modEnd k' m₀ pcb d base x)
    (hmade : k.createPcbGrubModules L mod.modStart mod.modEnd = some (pcb, k')) (hfirst : first ≠ 0)
    (hlen : k'.sched.ready.len < readyQueueCapacity) :
    ∃ ready : RingBuffer Nat readyQueueCapacity,
      ready.toList = k'.sched.ready.toList ++ [pcb] ∧
      bootModule L (first, k) mod = some (first, { k' with
        sched := { k'.sched with ready := ready }
        booted := k'.booted ++ [pcb] }) := by
  have hsame : k'.setPcb pcb { k'.pcbs pcb with state := .ready } = k' := by
    have hstate : ({ k'.pcbs pcb with state := .ready } : Pcb) = k'.pcbs pcb := by
      rw [h.pcb_eq]
      rfl
    rw [hstate, setPcb, Function.update_eq_self]
  rcases schedulerEnqueueReady_cases k' h.pcb_ne with ⟨-, ready, hlist, henq⟩ | ⟨hfull, -⟩
  · refine ⟨ready, hlist, ?_⟩
    simp only [bootModule, hmade, if_neg h.pcb_ne, if_neg hfirst, hsame, henq]
  · omega

/-- The first process that is made. -/
theorem bootModule_first {mod : MultibootModule} {pcb : Nat} (hne : pcb ≠ 0)
    (hmade : k.createPcbGrubModules L mod.modStart mod.modEnd = some (pcb, k')) :
    bootModule L (0, k) mod = some (pcb, { k' with booted := k'.booted ++ [pcb] }) := by
  simp only [bootModule, hmade, if_neg hne, if_true]

/-- With enough memory a process is made, no allocation fails, and the room for the
others is left. -/
theorem createPcbGrubModules_room {R : Nat → Prop} {c : Nat} {bs : List (Nat × Nat)}
    {ds : List Nat} (h : Holding L R (Plenty k.store) c bs ds k.store)
    {spare : Nat} (hroom : BootRoom spare (n + 1) k.store) {mod : MultibootModule}
    (hread : Readable mod) :
    ∃ k' m₀ pcb d base x, k.createPcbGrubModules L mod.modStart mod.modEnd = some (pcb, k') ∧
      Made L R c bs ds k mod.modStart mod.modEnd k' m₀ pcb d base x ∧ 0 ∉ x.list ∧
      BootRoom spare n k'.store := by
  have hspec := createPcbGrubModules_spec h mod.modStart mod.modEnd
  have hframes := hroom.frames
  have hheap := hroom.heap
  generalize k.createPcbGrubModules L mod.modStart mod.modEnd = r at hspec
  cases hspec with
  | fault high =>
      unfold Readable at hread
      omega
  | failed hold beside short =>
      unfold MakeShort at short
      omega
  | @made k' m₀ pcb d base x made =>
      have hcount := made.count
      have hgrown := made.grown
      have hdrawn := made.space.drawn.count
      have hle : (x.list.filter (· ≠ 0)).length ≤ 5 := List.length_filter_le _ x.list
      have hfive : x.list.length = 5 := rfl
      have hzero : 0 ∉ x.list := by
        rw [made.space.drawn.zero_mem_iff]
        omega
      refine ⟨k', m₀, pcb, d, base, x, rfl, made, hzero, ?_, ?_, ?_⟩
      · have hnot : ¬ k'.store.mem.pfa.exhausted = true := by
          rw [made.space.drawn.failed]
          rintro (hexh | hz)
          · rcases made.spent hexh with hold | hdry
            · exact Bool.eq_false_iff.1 hroom.plenty hold
            · omega
          · exact hzero hz
        exact Bool.eq_false_iff.2 hnot
      · omega
      · omega

/-- A pass with enough memory, while the queue has room. -/
theorem bootModule_room (h : Booting L B n first k) (hn : n < B.mods.length) {spare left : Nat}
    (hroom : BootRoom spare (left + 1) k.store) {mod : MultibootModule} (hread : Readable mod)
    (hlen : k.booted.length < 33) :
    ∃ first' k', bootModule L (first, k) mod = some (first', k') ∧
      Booting L B (n + 1) first' k' ∧ first' ≠ 0 ∧ BootRoom spare left k'.store ∧
      k'.booted.length = k.booted.length + 1 ∧ k'.dropped = k.dropped := by
  obtain ⟨k', m₀, pcb, d, base, x, hmade, made, -, hroom'⟩ :=
    createPcbGrubModules_room h.holding hroom hread
  have hv := h.views made.beside
  by_cases hfirst : first = 0
  · have hrun : bootModule L (first, k) mod =
        some (pcb, { k' with booted := k'.booted ++ [pcb] }) := by
      rw [hfirst]
      exact bootModule_first made.pcb_ne hmade
    refine ⟨_, _, hrun, h.pass hn hrun, made.pcb_ne, hroom', ?_, hv.dropped⟩
    simp [hv.booted]
  · have hqueue : k'.sched.ready.len < readyQueueCapacity := by
      have hbooted := h.queue
      rw [if_neg hfirst] at hbooted
      rw [hbooted, List.length_append, RingBuffer.length_toList] at hlen
      rw [hv.ready]
      have hcap : readyQueueCapacity = 32 := rfl
      simp only [List.length_singleton] at hlen
      omega
    obtain ⟨ready, -, hrun⟩ := made.enqueued mod hmade hfirst hqueue
    refine ⟨_, _, hrun, h.pass hn hrun, hfirst, hroom', ?_, hv.dropped⟩
    simp [hv.booted]

/-- The loop with enough memory and at most 33 modules. -/
theorem foldlM_room {mods : List MultibootModule} {spare n first : Nat} {k : Kernel}
    (h : Booting L B n first k) (hn : n + mods.length = B.mods.length)
    (hroom : BootRoom spare mods.length k.store) (hread : ∀ mod ∈ mods, Readable mod)
    (hlen : k.booted.length + mods.length ≤ 33) :
    ∃ first' k', mods.foldlM (bootModule L) (first, k) = some (first', k') ∧
      (mods ≠ [] → first' ≠ 0) ∧ BootRoom spare 0 k'.store ∧
      k'.booted.length = k.booted.length + mods.length ∧ k'.dropped = k.dropped := by
  induction mods generalizing n first k with
  | nil => exact ⟨first, k, rfl, by simp, hroom, rfl, rfl⟩
  | cons mod rest ih =>
      rw [List.length_cons] at hn hroom hlen
      obtain ⟨first₁, k₁, hrun, h₁, hfirst, hroom₁, hlen₁, hdropped₁⟩ :=
        bootModule_room h (by omega) hroom (hread mod List.mem_cons_self) (by omega)
      obtain ⟨first₂, k₂, hrun₂, hfirst₂, hroom₂, hlen₂, hdropped₂⟩ :=
        ih h₁ (by omega) hroom₁ (fun m hm => hread m (List.mem_cons_of_mem _ hm)) (by omega)
      refine ⟨first₂, k₂, ?_, fun _ => ?_, hroom₂, ?_, hdropped₂.trans hdropped₁⟩
      · rw [List.foldlM_cons, hrun]
        exact hrun₂
      · cases rest with
        | nil =>
            rw [List.foldlM_nil] at hrun₂
            cases hrun₂
            exact hfirst
        | cons mod' rest' => exact hfirst₂ (by simp)
      · rw [List.length_cons]
        omega

/-- With enough memory and at most 33 modules, boot makes a process of each and no
allocation fails. -/
theorem kmain_room {spare : Nat} (hne : B.mods ≠ []) (hlen : B.mods.length ≤ 33)
    (hroom : BootRoom spare B.mods.length (bootStore L B))
    (hread : ∀ mod ∈ B.mods, Readable mod) :
    ∃ k₀, kmain L B = some k₀ ∧ BootRoom spare 0 k₀.store ∧
      k₀.members.length = B.mods.length ∧ k₀.dropped = [] ∧ k₀.exited = [] := by
  have hstart := booting_start L B
  obtain ⟨first, k, hrun, hfirst, hleft, hbooted, hdropped⟩ :=
    foldlM_room hstart (Nat.zero_add _) hroom hread (by simpa [bootKernel] using hlen)
  have hfirst := hfirst hne
  have hkmain := kmain_of_loop hrun hfirst
  have hloop := booting_all hrun
  refine ⟨_, hkmain, ?_, ?_, ?_, ?_⟩
  · rw [runUserModeModule_eq k hfirst]
    exact ⟨hleft.plenty, hleft.frames, hleft.heap⟩
  · have hqueue := hloop.queue
    simp only at hqueue
    rw [if_neg hfirst, List.singleton_append] at hqueue
    rw [runUserModeModule_eq k hfirst]
    change (first :: k.sched.ready.toList).length = _
    rw [← hqueue, hbooted]
    simp [bootKernel]
  · rw [runUserModeModule_eq k hfirst]
    exact hdropped
  · rw [runUserModeModule_eq k hfirst]
    exact hloop.fixed.exited

end Boot

end Kernel

/-- Up to 33 modules of one page all become processes, and most of the memory is left. -/
theorem sampleBoot_room {n : Nat} (hpos : 0 < n) (hn : n ≤ 33) (policy : SchedulingPolicy) :
    ∃ k₀, kmain sampleLayout (sampleBoot n hn policy) = some k₀ ∧
      BootRoom 15000 0 k₀.store ∧ k₀.members.length = n ∧ k₀.dropped = [] ∧
      k₀.exited = [] := by
  have hlen : (sampleBoot n hn policy).mods.length = n := by
    simp [sampleBoot]
  have hframes := bootPfa_frame sampleLayout (sampleBoot n hn policy).mods
  have hcount := freeCount_bootPfa sampleLayout (sampleBoot n hn policy).mods
  have hpages : ((sampleBoot n hn policy).mods.map modulePages).sum = n :=
    sum_modulePages_sample n
  have halign : pageAlignUp sampleLayout.kernelPhysicalEnd = 0x200000 := by decide
  rw [halign] at hframes
  have hroom : BootRoom 15000 (sampleBoot n hn policy).mods.length
      (bootStore sampleLayout (sampleBoot n hn policy)) := by
    rw [hlen]
    refine ⟨hframes.2.2, ?_, ?_⟩
    · change _ ≤ (bootPfa sampleLayout (sampleBoot n hn policy).mods).freeCount
      omega
    · change sampleLayout.heapStart + _ + _ ≤ _
      have hstart : sampleLayout.heapStart = 0xC0200000 := by decide
      omega
  have hread : ∀ mod ∈ (sampleBoot n hn policy).mods, Readable mod := by
    intro mod hmod
    obtain ⟨i, hi, rfl⟩ := List.mem_map.1 hmod
    rw [List.mem_range] at hi
    simp only [Readable, Memory.copySize, sampleModule]
    omega
  have hne : (sampleBoot n hn policy).mods ≠ [] := by
    intro hnil
    rw [hnil, List.length_nil] at hlen
    omega
  obtain ⟨k₀, hboot, hleft, hmembers, hrest⟩ := kmain_room hne (by omega) hroom hread
  exact ⟨k₀, hboot, hleft, hmembers.trans hlen, hrest⟩

theorem sampleBoot_runs {n : Nat} (hpos : 0 < n) (hn : n ≤ 33) (policy : SchedulingPolicy) :
    ∃ k₀, kmain sampleLayout (sampleBoot n hn policy) = some k₀ ∧
      k₀.store.mem.pfa.exhausted = false ∧ k₀.members.length = n ∧ k₀.dropped = [] ∧
      k₀.exited = [] := by
  obtain ⟨k₀, hboot, hroom, hrest⟩ := sampleBoot_room hpos hn policy
  exact ⟨k₀, hboot, hroom.plenty, hrest⟩

end SoKernel
