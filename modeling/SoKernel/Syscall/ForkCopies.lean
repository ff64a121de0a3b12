import SoKernel.Kernel.BootInvariant

/-!
# Fork copies exactly

The child of a fork has the pages of its parent on frames of its own, and resumes at the
parent's registers with 0 as the result of the call; the parent keeps its pages and gets
the child's pid.

Main results:

- Theorem {lit}`fork_copies_exactly`: what a fork that succeeds leaves behind, in every
  reachable state.
-/

namespace SoKernel

namespace Kernel

section ForkCopies

variable {L : Layout} {R : Nat → Prop} {safe : Prop} {B : BootInfo} {k k₀ : Kernel}

/-- The child at {lit}`child`, with its directory in frame {lit}`d`, is an exact copy of
the process that was current in {lit}`k`, and the call has returned {lit}`r`. -/
structure CopiedChild (k : Kernel) (frame : SyscallFrame) (r : Nat) (k' : Kernel)
    (child d : Nat) : Prop where
  pages : ∀ v, v < 0xC0000000 → Memory.PageCopied k.store.mem.phys (k.dirOf k.sched.currentPcb)
    k'.store.mem.phys d (v / 4096 / 1024) (v / 4096 % 1024)
  frames : ∀ s f, k'.store.mem.slots d s = some f → k.store.mem.pfa.Free f
  parentSpace : ∀ s f, k.store.mem.slots (k.dirOf k.sched.currentPcb) s = some f →
    ByteMemory.BlockEq k.store.mem.phys k'.store.mem.phys f
  parentPcb : k'.sched.currentPcb = k.sched.currentPcb ∧ k'.current = k.current
  result : r = k.schedulerAllocatePid.1
  pid : (k'.pcbs child).pid = k.schedulerAllocatePid.1
  ppid : (k'.pcbs child).ppid = k.current.pid
  state : (k'.pcbs child).state = .ready
  pdt : (k'.pcbs child).pdt = 4096 * d
  context : (k'.pcbs child).context = returned frame 0
  queue : k'.sched.ready.toList = k.sched.ready.toList ++ [child]

/-- A fork that has made a child has copied the parent. -/
theorem Forked.copies (h : Inv L R safe k) {frame : SyscallFrame} {k' : Kernel}
    {child d base : Nat} (hf : Forked k frame k' child d base) :
    CopiedChild k frame k.sched.nextPid k' child d := by
  have hspaces := h.holding.store.spaces
  have hcur : k'.sched.currentPcb = k.sched.currentPcb := by rw [hf.sched]
  refine ⟨fun v hv => hf.copied.pages _ _ (by omega) (by omega), fun s f hs => ?_,
    fun s f hs => ?_, ⟨hcur, ?_⟩, rfl, ?_, ?_, ?_, ?_, ?_, hf.ready⟩
  · have hf0 : f ≠ 0 := fun hz => hf.copied.filled s (hz ▸ hs)
    exact hf.copied.frames f ⟨hf0, s, hs⟩
  · exact hf.copied.kept f ((hspaces.settled h.loaded.2).frames s f hs)
  · rw [current, hcur]
    exact hf.others _ (mem_holders k.current_mem)
  all_goals
    rw [hf.pcb]
    rfl

/-- Fork copies exactly: a fork that adds a process to those it has made copies every page
of the caller onto frames that were free, leaves the caller alone, and enqueues a child
that resumes at the caller's frame with 0 in {lit}`eax`. -/
theorem fork_copies_exactly (hboot : kmain L B = some k₀) (hk : Reachable L k₀ k)
    (frame : SyscallFrame) (hsucceeds : (k.sysFork L frame).2.forked ≠ k.forked) :
    ∃ child d, CopiedChild k frame (k.sysFork L frame).1 (k.sysFork L frame).2 child d := by
  have hinv := (kmain_inv hboot).reachable hk
  have hspec := sysFork_spec hinv frame
  generalize k.sysFork L frame = r at hsucceeds hspec ⊢
  cases hspec with
  | failed inv aside short => exact absurd aside.forked hsucceeds
  | @forked k' child d base inv forked spent => exact ⟨child, d, forked.copies hinv⟩

/-- When half of the frames and three heap pages are left, memory suffices for a fork: the
caller owns no more than the other half. -/
theorem Inv.not_starved (hinv : Inv L R safe k) (hsafe : safe)
    (hframes : 9000 ≤ k.store.mem.pfa.freeCount)
    (hheap : k.store.heap.heapCurrent + 4096 * 3 ≤ 0xC03FF000) : ¬ k.ForkStarved := by
  have hspaces := hinv.holding.store.spaces
  have hloaded := hinv.loaded.2
  have hdemand := (hspaces.space _ hloaded).cloneDemand_le (hspaces.filled hsafe _ hloaded)
  obtain ⟨hstart, htotal⟩ := hspaces.ok.window
  unfold ForkStarved
  omega

/-- With enough memory and room in the queue, a fork succeeds. -/
theorem sysFork_succeeds (hinv : Inv L R safe k) (frame : SyscallFrame)
    (hstarved : ¬ k.ForkStarved) (hready : k.sched.ready.len < readyQueueCapacity) :
    (k.sysFork L frame).2.forked ≠ k.forked := by
  have hspec := sysFork_spec hinv frame
  generalize k.sysFork L frame = r at hspec ⊢
  cases hspec with
  | failed inv aside short =>
      rcases short with hfull | hmemory
      · omega
      · exact absurd hmemory hstarved
  | forked inv forked =>
      rw [forked.forked]
      simp

theorem fork_copies_exactly_one_module :
    ∃ k₀, kmain sampleLayout (sampleBoot 1 (by decide) .rr) = some k₀ ∧
      ∃ child d, CopiedChild k₀ (sampleCall 3) (k₀.sysFork sampleLayout (sampleCall 3)).1
        (k₀.sysFork sampleLayout (sampleCall 3)).2 child d := by
  obtain ⟨k₀, hboot, hroom, hlen, -⟩ :=
    sampleBoot_room (show 0 < 1 by decide) (by decide) SchedulingPolicy.rr
  rw [members, List.length_cons, RingBuffer.length_toList] at hlen
  have hready : k₀.sched.ready.len < readyQueueCapacity := by
    have hcap : readyQueueCapacity = 32 := rfl
    omega
  have hstarved : ¬ k₀.ForkStarved := by
    have hframes := hroom.frames
    have hheap := hroom.heap
    exact (kmain_inv hboot).not_starved hroom.plenty (by omega) (by omega)
  exact ⟨k₀, hboot, fork_copies_exactly hboot .boot (sampleCall 3)
    (sysFork_succeeds (kmain_inv hboot) (sampleCall 3) hstarved hready)⟩

end ForkCopies

end Kernel

end SoKernel
