import SoKernel.Syscall.ExecImages
import SoKernel.Syscall.ForkCopies
import SoKernel.Syscall.SpaceRelease

/-!
# What a failing fork leaves behind

A fork can fail at the control block, at any frame of the copied address space, at the
kernel stack and at the ready queue, and each exit undoes another prefix of the work.

Main results:

- Theorem {lit}`sysFork_fails`: a call that meets a failure point makes no process.
- Theorem {lit}`failing_fork_leaves_no_trace`: a call that makes no process returns -1 and
  leaves nothing behind but pages of the heap and the pid counter.
-/

namespace SoKernel

namespace Memory

/-- Some call of {lit}`pfa_alloc` inside {lit}`clone_user_space` returns 0. -/
def CloneRunsOut (m : Memory) (parentPdtPhys : Nat) : Prop :=
  (m.forget.cloneUserSpace parentPdtPhys).2.pfa.exhausted = true

/-- A clone in which an allocation fails returns 0. -/
theorem CloneRunsOut.fails {m : Memory} {pd : Nat} (h : CloneRunsOut m (4096 * pd))
    (hrest : AtRest m) (hp : Settled m pd) : (m.cloneUserSpace (4096 * pd)).1 = 0 := by
  unfold CloneRunsOut at h
  have hok : MemOk m.forget := ⟨hrest.ok.closed, hrest.ok.window⟩
  have hp' : Settled m.forget pd := ⟨hp.bound, hp.frames⟩
  rcases cloneUserSpace_spec hok hrest.pde hp' hrest.loaded with
    ⟨d, m', hrun, -, -, -, -, hexh⟩ | ⟨m', hrun, -, hless⟩
  · rw [hrun, hexh] at h
    cases h
  · -- The history plays no part in the number of frames.
    have hshort : m.pfa.freeCount < cloneDemand m.phys pd := hless
    rcases cloneUserSpace_spec hrest.ok hrest.pde hp hrest.loaded with
      ⟨d, m', -, -, -, -, hcount, -⟩ | ⟨m', hrun', -⟩
    · omega
    · rw [hrun']

end Memory

namespace Kernel

section ForkFailures

variable {L : Layout} {R : Nat → Prop} {safe : Prop} {B : BootInfo} {k k₀ k' : Kernel}
  {frame : SyscallFrame}

/-! ## The failure points -/

/-- The ready queue refuses the child. -/
def EnqueueFails (k : Kernel) (frame : SyscallFrame) (child childPdt : Nat) : Prop :=
  (k.setPcb child (childReady (k.pcbs child) frame childPdt)).schedulerEnqueueReady child = none

/-- The kernel stack can not be allocated, or what follows fails. -/
def StackFails (L : Layout) (k : Kernel) (frame : SyscallFrame) (child childPdt : Nat) : Prop :=
  (k.allocKernelStack L child).1 = false ∨
    (k.allocKernelStack L child).2.EnqueueFails frame child childPdt

/-- A frame of the copy can not be allocated, or what follows fails. -/
def SpaceFails (L : Layout) (k : Kernel) (frame : SyscallFrame) (child : Nat) : Prop :=
  k.store.mem.CloneRunsOut k.current.pdt ∨
    (k.withMem (k.store.mem.cloneUserSpace k.current.pdt).2).StackFails L frame child
      (k.store.mem.cloneUserSpace k.current.pdt).1

/-- The kernel when {lit}`sys_fork` has the child's control block. -/
def forkStarted (L : Layout) (k : Kernel) : Kernel :=
  let (child, store) := k.store.kmalloc L sizeofPcb
  let (childPid, k) := ({ k with store := store } : Kernel).schedulerAllocatePid
  k.setPcb child (childPcb (k.pcbs k.sched.currentPcb) childPid)

/-- Some step of {lit}`sys_fork` fails: the control block, a frame of the copied address
space, the kernel stack or the ready queue. -/
def ForkFails (L : Layout) (k : Kernel) (frame : SyscallFrame) : Prop :=
  (k.store.kmalloc L sizeofPcb).1 = 0 ∨
    (k.forkStarted L).SpaceFails L frame (k.store.kmalloc L sizeofPcb).1

theorem forkEnqueue_fails {child childPid childPdt : Nat} (h : k.EnqueueFails frame child childPdt) :
    (k.forkEnqueue frame child childPid childPdt).2.forked = k.forked := by
  unfold forkEnqueue
  unfold EnqueueFails at h
  dsimp only
  rw [h]
  rfl

theorem allocKernelStack_frame (L : Layout) (k : Kernel) (pcb : Nat) :
    (k.allocKernelStack L pcb).2.forked = k.forked ∧
      (k.allocKernelStack L pcb).2.sched = k.sched := by
  unfold allocKernelStack
  cases k.store.kmalloc L kernelStackSize with
  | mk kstack store =>
      dsimp only
      split
      · exact ⟨rfl, rfl⟩
      · exact ⟨rfl, rfl⟩

theorem forkStack_fails {child childPid childPdt : Nat} (h : k.StackFails L frame child childPdt) :
    (k.forkStack L frame child childPid childPdt).2.forked = k.forked := by
  have halloc := (allocKernelStack_frame L k child).1
  unfold forkStack
  unfold StackFails at h
  cases hrun : k.allocKernelStack L child with
  | mk ok kk =>
      rw [hrun] at halloc h
      rw [← halloc]
      dsimp only at h ⊢
      cases ok with
      | false => rfl
      | true =>
          rw [if_neg (by decide)]
          exact forkEnqueue_fails (h.resolve_left (by decide))

theorem forkSpace_fails {child childPid pd : Nat} (hrest : k.store.mem.AtRest)
    (hpdt : k.current.pdt = 4096 * pd) (hp : Memory.Settled k.store.mem pd)
    (h : k.SpaceFails L frame child) :
    (k.forkSpace L frame child childPid).2.forked = k.forked := by
  unfold forkSpace
  unfold SpaceFails at h
  rw [hpdt] at h ⊢
  have hruns := fun hout : k.store.mem.CloneRunsOut (4096 * pd) => hout.fails hrest hp
  cases hclone : k.store.mem.cloneUserSpace (4096 * pd) with
  | mk childPdt m =>
      rw [hclone] at h hruns
      dsimp only at h hruns ⊢
      by_cases hz : childPdt = 0
      · rw [if_pos hz]
        rfl
      · rw [if_neg hz]
        exact forkStack_fails (h.resolve_left fun hout => hz (hruns hout))

/-- A call that meets a failure point makes no process. -/
theorem sysFork_fails (h : Inv L R safe k) (hfails : k.ForkFails L frame) :
    (k.sysFork L frame).2.forked = k.forked := by
  have hpdt := h.loaded
  unfold sysFork
  unfold ForkFails forkStarted at hfails
  rw [if_neg h.current_ne]
  rcases h.holding.kmalloc (show 1 ≤ sizeofPcb by decide) (show sizeofPcb ≤ 0x3FF000 by decide) with
    ⟨child, s, hrun, hchild, hnew, hhold, -⟩ | ⟨s, hrun, -⟩
  · rw [hrun] at hfails ⊢
    dsimp only at hfails ⊢
    rw [if_neg hchild]
    have hspace := hfails.resolve_left hchild
    have hspaces := hhold.store.spaces
    -- The child's control block is not the parent's.
    have hfresh : k.sched.currentPcb ≠ child := fun heq =>
      hnew _ (h.live (mem_holders k.current_mem)).1 heq
    refine forkSpace_fails ⟨hspaces.ok, hspaces.pde.1, ?_⟩ ?_ (hspaces.settled hpdt.2) hspace
    · rw [hpdt.1] at hhold
      exact hhold.cr3_not_free hpdt.2
    · rw [← hpdt.1]
      simp only [current, setPcb, schedulerAllocatePid, Function.update_of_ne hfresh]
  · rw [hrun]
    rfl

/-- A full ready queue is a failure point. -/
theorem forkFails_of_full (hfull : k.sched.ready.len = readyQueueCapacity)
    (frame : SyscallFrame) : k.ForkFails L frame := by
  refine .inr (.inr (.inr ?_))
  have hready : ∀ kk : Kernel, ∀ child b, kk.sched.ready.len = readyQueueCapacity →
      (kk.setPcb child b).schedulerEnqueueReady child = none := by
    intro kk child b hlen
    unfold schedulerEnqueueReady
    split
    · rfl
    · exact dif_neg (by change ¬ kk.sched.ready.len < _; omega)
  refine hready _ _ _ ?_
  rw [(allocKernelStack_frame L _ _).2]
  exact hfull

/-! ## Nothing is left -/

/-- The live heap blocks, the scheduler, the control blocks of all processes and the tables
and pages of the live ones are as before; the allocator has given away frames for pages of
the heap and no others, and the pid counter may have advanced by one. -/
structure NoTrace (L : Layout) (k k' : Kernel) : Prop where
  live : k'.store.heap.live.Perm k.store.heap.live
  ready : k'.sched.ready = k.sched.ready
  sched : k'.sched = { k.sched with nextPid := k'.sched.nextPid }
  nextPid : k'.sched.nextPid = k.sched.nextPid ∨
    k'.sched.nextPid = k.schedulerAllocatePid.2.sched.nextPid
  parent : k'.pcbs k.sched.currentPcb = k.current
  pcbs : ∀ p ∈ k.members, k'.pcbs p = k.pcbs p
  tables : ∀ p ∈ k.members, k'.store.mem.slots (k.dirOf p) = k.store.mem.slots (k.dirOf p)
  pages : ∀ p ∈ k.members, ∀ s f, k.store.mem.slots (k.dirOf p) s = some f →
    ByteMemory.BlockEq k.store.mem.phys k'.store.mem.phys f
  kept : ∀ f, k.store.mem.pfa.used f = true → k'.store.mem.pfa.used f = true
  grown : ∀ f, k'.store.mem.pfa.used f = true →
    k.store.mem.pfa.used f = true ∨ HeapFrame L k'.store.mem f

/-- A call that has given everything back leaves no trace. -/
theorem Inv.noTrace (h : Inv L R safe k) (h' : Inv L R safe k') (ha : Aside k k')
    (hnext : k'.sched.nextPid = k.sched.nextPid ∨
      k'.sched.nextPid = k.schedulerAllocatePid.2.sched.nextPid)
    (hg : GrownSince L k.store.mem (fun _ => False) 1023 k'.store.mem) : NoTrace L k k' := by
  have hspaces := h.holding.store.spaces
  have hpages : ∀ p ∈ k.members, ∀ s f, k.store.mem.slots (k.dirOf p) s = some f →
      ByteMemory.BlockEq k.store.mem.phys k'.store.mem.phys f := fun p hp s f hs =>
    hg.phys f ((hspaces.settled (List.mem_map_of_mem hp)).frames s f hs)
  refine ⟨?_, by rw [ha.sched], ha.sched, hnext, ha.pcbs _ (mem_holders k.current_mem),
    fun p hp => ha.pcbs p (mem_holders hp), fun p hp => ?_, hpages, hg.keeps, fun f hf => ?_⟩
  · have hblocks := h'.holding.blocks
    rw [ha.views.2] at hblocks
    exact hblocks.trans h.holding.blocks.symm
  · exact slotFrame_congr (hpages p hp .dir _ rfl) fun i t ht => hpages p hp (.table i) t ht
  · refine (hg.takes f hf).imp_right fun hnew => ?_
    obtain ⟨i, hlo, hlt, hi⟩ := hnew.resolve_left id
    exact ⟨i, hlo, hlt, hi⟩

/-- A failing fork leaves no trace: a call that meets a failure point returns -1, and so does
every call that makes no process; afterwards everything is as before but for pages of the heap
and the pid counter. -/
theorem failing_fork_leaves_no_trace (hboot : kmain L B = some k₀) (hk : Reachable L k₀ k)
    (frame : SyscallFrame) :
    (k.ForkFails L frame → ∃ k', k.sysFork L frame = (minusOne, k') ∧ NoTrace L k k') ∧
      ((k.sysFork L frame).2.forked = k.forked →
        ∃ k', k.sysFork L frame = (minusOne, k') ∧ NoTrace L k k') := by
  have hinv := (kmain_inv hboot).reachable hk
  have hnone : (k.sysFork L frame).2.forked = k.forked →
      ∃ k', k.sysFork L frame = (minusOne, k') ∧ NoTrace L k k' := by
    intro hforked
    have hspec := sysFork_spec hinv frame
    generalize k.sysFork L frame = r at hforked hspec ⊢
    cases hspec with
    | @failed k' inv aside short spent counter grown =>
        exact ⟨k', rfl, hinv.noTrace inv aside counter grown⟩
    | forked inv forked =>
        rw [forked.forked] at hforked
        simp at hforked
  exact ⟨fun hfails => hnone (sysFork_fails hinv hfails), hnone⟩

theorem failing_fork_leaves_no_trace_full_queue :
    ∃ k₀ k', kmain sampleLayout (sampleBoot 33 le_rfl .fcfs) = some k₀ ∧
      k₀.ForkFails sampleLayout (sampleCall 3) ∧
      k₀.sysFork sampleLayout (sampleCall 3) = (minusOne, k') ∧ NoTrace sampleLayout k₀ k' := by
  obtain ⟨k₀, hboot, -, hlen, -⟩ :=
    sampleBoot_room (show 0 < 33 by decide) le_rfl SchedulingPolicy.fcfs
  rw [members, List.length_cons, RingBuffer.length_toList] at hlen
  have hfull : k₀.sched.ready.len = readyQueueCapacity := by
    have hcap : readyQueueCapacity = 32 := rfl
    omega
  have hfails : k₀.ForkFails sampleLayout (sampleCall 3) := forkFails_of_full hfull _
  obtain ⟨k', hrun, htrace⟩ := (failing_fork_leaves_no_trace hboot .boot (sampleCall 3)).1 hfails
  exact ⟨k₀, k', hboot, hfails, hrun, htrace⟩

end ForkFailures

end Kernel

end SoKernel
