import SoKernel.Kernel.Population
import SoKernel.Syscall.ForkCopies

/-!
# Pids

The counter behind {lit}`scheduler_allocate_pid` goes round the 32-bit numbers without 0
and does not look at the processes that have a pid.  It moves on at every fork that gets
as far as the pid, also at one that fails.  As long as it has not come back to the pid of
a process, pids are distinct; after enough failing forks it comes back.

Main results:

- Theorem {lit}`pids_distinct_while_fresh`: the pids are distinct along runs in which every
  fork with room in the queue finds a pid that no process has.
- Theorem {lit}`pids_collide`: a run after which two processes have the same pid.
-/

namespace SoKernel

/-- The pid after the given one. -/
def pidAfter (pid : Nat) : Nat :=
  if u32 (pid + 1) = 0 then 1 else u32 (pid + 1)

theorem pidAfter_ne_zero (pid : Nat) : pidAfter pid ≠ 0 := by
  unfold pidAfter
  split
  · exact Nat.one_ne_zero
  · assumption

theorem pidAfter_of_lt {pid : Nat} (h : pid + 1 < 2 ^ 32) : pidAfter pid = pid + 1 := by
  have hu : u32 (pid + 1) = pid + 1 := Nat.mod_eq_of_lt h
  rw [pidAfter, hu, if_neg (Nat.succ_ne_zero pid)]

theorem pidAfter_iterate {pid n : Nat} (h : pid + n < 2 ^ 32) : pidAfter^[n] pid = pid + n := by
  induction n with
  | zero => rfl
  | succ n ih =>
      rw [Function.iterate_succ_apply', ih (by omega)]
      exact pidAfter_of_lt h

/-- The counter comes back to every pid. -/
theorem exists_pidAfter_iterate {pid target : Nat} (hpid : pid < 2 ^ 32) (hpos : 1 ≤ target)
    (htarget : target < 2 ^ 32) : ∃ n, pidAfter^[n] pid = target := by
  refine ⟨target - 1 + (1 + (2 ^ 32 - 1 - pid)), ?_⟩
  have htop : pidAfter^[2 ^ 32 - 1 - pid] pid = 2 ^ 32 - 1 := by
    rw [pidAfter_iterate (by omega)]
    omega
  have hwrap : pidAfter^[1] (2 ^ 32 - 1) = 1 := by decide
  rw [Function.iterate_add_apply, Function.iterate_add_apply, htop, hwrap,
    pidAfter_iterate (by omega)]
  omega

namespace Kernel

section Pids

variable {L : Layout} {R : Nat → Prop} {safe : Prop} {B : BootInfo} {k k₀ k' : Kernel}

/-- The pids of the processes that the scheduler knows are distinct, and none is 0. -/
structure DistinctPids (k : Kernel) : Prop where
  distinct : (k.members.map fun p => (k.pcbs p).pid).Nodup
  nonzero : ∀ p ∈ k.members, (k.pcbs p).pid ≠ 0

/-- A fork that finds room in the queue finds a pid that no process has. -/
def FreshPid (k : Kernel) (t : Trap) : Prop :=
  t.IsFork → k.sched.ready.len < readyQueueCapacity →
    ∀ p ∈ k.members, (k.pcbs p).pid ≠ k.sched.nextPid

/-! ## Runs with fresh pids -/

/-- Processes may change places and leave. -/
theorem DistinctPids.of_subperm (h : DistinctPids k) (hsub : k'.members.Subperm k.members)
    (hpids : ∀ p ∈ k'.members, (k'.pcbs p).pid = (k.pcbs p).pid) : DistinctPids k' := by
  constructor
  · obtain ⟨l, hperm, hsublist⟩ := hsub
    rw [List.map_congr_left hpids, ← (hperm.map _).nodup_iff]
    exact h.distinct.sublist (hsublist.map _)
  · intro p hp
    rw [hpids p hp]
    exact h.nonzero p (hsub.subset hp)

/-- A process with a pid that is not 0 and that no other one has may come. -/
theorem DistinctPids.of_append (h : DistinctPids k) {child : Nat}
    (hmembers : k'.members = k.members ++ [child])
    (hpids : ∀ p ∈ k.members, (k'.pcbs p).pid = (k.pcbs p).pid)
    (hfresh : ∀ p ∈ k.members, (k.pcbs p).pid ≠ (k'.pcbs child).pid)
    (hnonzero : (k'.pcbs child).pid ≠ 0) : DistinctPids k' := by
  constructor
  · rw [hmembers, List.map_append, List.map_congr_left hpids, List.map_singleton]
    apply h.distinct.append (List.nodup_singleton _)
    rw [List.disjoint_singleton]
    intro hmem
    obtain ⟨p, hp, heq⟩ := List.mem_map.1 hmem
    exact hfresh p hp heq
  · intro p hp
    rw [hmembers, List.mem_append, List.mem_singleton] at hp
    rcases hp with hp | rfl
    · rw [hpids p hp]
      exact h.nonzero p hp
    · exact hnonzero

/-- What a trap does to the pids: processes change places and leave and the counter may
move on, or a fork adds a process that takes the pid of the counter. -/
inductive PidStep (k : Kernel) (t : Trap) (k' : Kernel) : Prop
  | kept (sub : k'.members.Subperm k.members)
      (pids : ∀ p ∈ k'.members, (k'.pcbs p).pid = (k.pcbs p).pid)
      (counter : k.sched.nextPid ≠ 0 → k'.sched.nextPid ≠ 0)
  | forked {child : Nat} (isFork : t.IsFork) (room : k.sched.ready.len < readyQueueCapacity)
      (members : k'.members = k.members ++ [child])
      (pids : ∀ p ∈ k.members, (k'.pcbs p).pid = (k.pcbs p).pid)
      (pid : (k'.pcbs child).pid = k.sched.nextPid)
      (counter : k'.sched.nextPid ≠ 0)

/-- A call that keeps the pids and the counter, and whose processes were there before. -/
theorem PidStep.same {t : Trap} (hperm : k'.members.Subperm k.members)
    (hpids : ∀ p, (k'.pcbs p).pid = (k.pcbs p).pid)
    (hcounter : k'.sched.nextPid = k.sched.nextPid) : PidStep k t k' :=
  .kept hperm (fun p _ => hpids p) fun hne => hcounter ▸ hne

/-- What one trap does to the pids. -/
theorem TrapEffect.pids {t : Trap} (h : TrapEffect k t k') : PidStep k t k' := by
  cases h with
  | requeued kept members => exact .same members.subperm kept.pids kept.nextPid
  | gaveUp aside counter =>
      refine .kept ?_ (fun p hp => ?_) fun hne => ?_
      · exact (List.Perm.of_eq aside.members).subperm
      · rw [aside.members] at hp
        rw [aside.pcbs p (mem_holders hp)]
      · rcases counter with hsame | hnext
        · rw [hsame]
          exact hne
        · rw [hnext]
          exact pidAfter_ne_zero _
  | executed executed =>
      refine .same ?_ (fun p => ?_) (by rw [executed.sched])
      · rw [members, executed.sched]
        exact List.Subperm.refl _
      · by_cases hp : p = k.sched.currentPcb
        · have hpcb := executed.pcb
          rw [current, executed.sched, ← hp] at hpcb
          rw [hpcb, hp]
          rfl
        · rw [executed.others p hp]
  | forked call forked =>
      have hlen := congrArg List.length forked.ready
      rw [List.length_append, RingBuffer.length_toList, RingBuffer.length_toList,
        List.length_singleton] at hlen
      have hcap := k'.sched.ready.len_le
      refine .forked call (by omega) forked.members (fun p hp => ?_) ?_ ?_
      · rw [forked.others p (mem_holders hp)]
      · rw [forked.pcb]
        rfl
      · rw [forked.counter]
        exact pidAfter_ne_zero _
  | exited call exited =>
      refine .same ?_ exited.pids exited.nextPid
      exact (exited.ready.symm.subperm).trans (List.sublist_cons_self _ _).subperm
  | idle call kept members => exact .same (List.Perm.of_eq members).subperm kept.pids kept.nextPid

/-- Pids stay distinct while forks find fresh ones. -/
theorem DistinctPids.step (h : DistinctPids k) (hnext : k.sched.nextPid ≠ 0) {t : Trap}
    (hok : FreshPid k t) (hstep : PidStep k t k') : DistinctPids k' ∧ k'.sched.nextPid ≠ 0 := by
  cases hstep with
  | kept sub pids counter => exact ⟨h.of_subperm sub pids, counter hnext⟩
  | forked isFork room members pids pid counter =>
      refine ⟨h.of_append members pids ?_ ?_, counter⟩
      · rw [pid]
        exact hok isFork room
      · rw [pid]
        exact hnext

/-- The pids are distinct and not 0 along every run in which every fork with room in the
queue finds a pid that no process has. -/
theorem pids_distinct_while_fresh (hboot : kmain L B = some k₀)
    (hk : ReachableWhere L k₀ FreshPid k) : DistinctPids k := by
  have hinv₀ := kmain_inv hboot
  have hstarted := kmain_started hboot
  suffices hboth : DistinctPids k ∧ k.sched.nextPid ≠ 0 from hboth.1
  induction hk with
  | boot =>
      have hcurrent := hstarted.pids _ k₀.current_mem
      refine ⟨⟨hstarted.distinct, fun p hp => ?_⟩, by omega⟩
      have := hstarted.pids p hp
      omega
  | trap hk hok ht ih => exact ih.1.step ih.2 hok ((hinv₀.reachable hk.reachable).trap_effect ht).2.pids
  | write hk hsafe hw ih =>
      obtain ⟨i, j, f, hpage⟩ := (hinv₀.reachable hk.reachable).writePage hsafe hw
      rw [hpage.kernel]
      exact ⟨⟨ih.1.distinct, ih.1.nonzero⟩, ih.2⟩

theorem pids_distinct_while_fresh_one_fork :
    ∃ k₀ k, kmain sampleLayout (sampleBoot 2 (by decide) .rr) = some k₀ ∧
      k₀.trap sampleLayout (.syscall (sampleCall 3) fun _ => none) = some k ∧
      DistinctPids k.1 := by
  obtain ⟨k₀, hboot, -⟩ :=
    sampleBoot_runs (show 0 < 2 by decide) (by decide) SchedulingPolicy.rr
  have hstarted := kmain_started hboot
  have htrap := trap_fork (L := sampleLayout) (sampleCall 3) (fun _ => none)
    hstarted.idle (by decide) rfl
  refine ⟨k₀, _, hboot, htrap, pids_distinct_while_fresh hboot (.trap .boot ?_ htrap)⟩
  intro _ _ p hp
  exact (hstarted.pids p hp).2.ne

/-! ## A run after which two processes have the same pid -/

/-- What the blocks of some processes take from the heap. -/
theorem sum_blocks (k : Kernel) (ps : List Nat) :
    ((ps.flatMap k.blocks).map fun b => 8 * unitsFor b.2 + 8 * unitsFor kernelStackSize).sum =
      12424 * ps.length := by
  have hpcb : unitsFor sizeofPcb = 14 := by decide
  have hstack : unitsFor kernelStackSize = 513 := by decide
  induction ps with
  | nil => rfl
  | cons p ps ih =>
      rw [List.flatMap_cons, List.map_append, List.sum_append, ih, List.length_cons]
      simp only [Kernel.blocks, List.map_cons, List.map_nil, List.sum_cons, List.sum_nil, hpcb,
        hstack]
      omega

/-- The size of a crowded heap depends on the number of processes that hold blocks. -/
theorem Inv.forkCrowd_eq (h : Inv L R safe k) :
    k.forkCrowd L = L.heapStart + 12424 * k.holders.length + 8320 := by
  have hsum := (h.holding.blocks.map fun b => 8 * unitsFor b.2 + 8 * unitsFor kernelStackSize).sum_eq
  rw [allBlocks, sum_blocks] at hsum
  have hpcb : unitsFor sizeofPcb = 14 := by decide
  have hstack : unitsFor kernelStackSize = 513 := by decide
  rw [forkCrowd, crowded, List.map_cons, List.sum_cons, hsum, hpcb, hstack]
  omega

theorem Aside.trans {k₁ k₂ k₃ : Kernel} (h : Aside k₁ k₂) (h' : Aside k₂ k₃) : Aside k₁ k₃ := by
  have hholders : k₂.holders = k₁.holders := by
    unfold holders
    rw [h.members, h.exited, h.dropped]
  refine ⟨fun p hp => ?_, ?_, h'.tss.trans h.tss, h'.pitTicks.trans h.pitTicks,
    h'.modules.trans h.modules, h'.idle.trans h.idle, h'.booted.trans h.booted,
    h'.dropped.trans h.dropped, h'.forked.trans h.forked, h'.exited.trans h.exited⟩
  · rw [h'.pcbs p (hholders ▸ hp), h.pcbs p hp]
  · rw [h'.sched, h.sched]

/-- The queue is full, so that no fork succeeds, and there is memory for all the rest. -/
structure Jammed (L : Layout) (k : Kernel) : Prop where
  full : k.sched.ready.len = readyQueueCapacity
  idle : k.idle = false
  frames : 10000 ≤ k.store.mem.pfa.freeCount
  heap : k.store.heap.heapCurrent + 4096 * 3 ≤ 0xC03FF000
  crowd : k.forkCrowd L + 4096 * 6 ≤ 0xC03FF000
  low : k.forkCrowd L ≤ k.store.heap.heapCurrent + 4096 * 900

/-- A state after failing forks from {lit}`k₀`: the processes are as they were, and only the
heap has taken frames. -/
structure Stalled (L : Layout) (k₀ k : Kernel) : Prop where
  reachable : Reachable L k₀ k
  aside : Aside k₀ k
  count : 4096 * k.store.mem.pfa.freeCount + k.store.heap.heapCurrent =
    4096 * k₀.store.mem.pfa.freeCount + k₀.store.heap.heapCurrent
  heap : k.store.heap.heapCurrent ≤
    max k₀.store.heap.heapCurrent (k₀.forkCrowd L + 4096 * 3)

/-- After failing forks there is still memory for another one. -/
theorem Stalled.room (h : Stalled L k₀ k) (hj : Jammed L k₀) :
    9000 ≤ k.store.mem.pfa.freeCount ∧
      k.store.heap.heapCurrent + 4096 * 3 ≤ 0xC03FF000 := by
  have hcount := h.count
  have hheap := h.heap
  have hframes := hj.frames
  have hheap₀ := hj.heap
  have hcrowd := hj.crowd
  have hlow := hj.low
  omega

/-- One more fork fails and uses up a pid. -/
theorem Stalled.fork (h : Stalled L k₀ k) (hj : Jammed L k₀)
    (hinv₀ : Inv L R (k₀.store.mem.pfa.exhausted = false) k₀)
    (hsafe : k₀.store.mem.pfa.exhausted = false) :
    ∃ k', Stalled L k₀ k' ∧ k'.sched.nextPid = pidAfter k.sched.nextPid := by
  have hinv := hinv₀.reachable h.reachable
  have hidle : k.idle = false := h.aside.idle.trans hj.idle
  have hready : k.sched.ready = k₀.sched.ready := by rw [h.aside.sched]
  have htrap := trap_fork (L := L) (sampleCall 3) (fun _ => none) hidle (by decide) rfl
  have hspec := sysFork_spec hinv (sampleCall 3)
  generalize k.sysFork L (sampleCall 3) = r at htrap hspec
  cases hspec with
  | @failed k' inv aside short spent counter =>
      obtain ⟨hframes, hheap⟩ := h.room hj
      have hspent := spent.resolve_left (hinv.not_starved hsafe hframes hheap)
      refine ⟨k', ⟨.trap h.reachable htrap, h.aside.trans aside, ?_, ?_⟩, hspent.pid⟩
      · have hcount := hspent.count
        have hbefore := h.count
        omega
      · have hsame : k.forkCrowd L = k₀.forkCrowd L := by
          rw [hinv.forkCrowd_eq, hinv₀.forkCrowd_eq, holders, holders, h.aside.members,
            h.aside.exited, h.aside.dropped]
        have hpages := hspent.pages
        have hgrew := hspent.grew
        have hbefore := h.heap
        omega
  | @forked k' child d base inv forked spent =>
      have hlen := congrArg List.length forked.ready
      rw [List.length_append, RingBuffer.length_toList, RingBuffer.length_toList,
        List.length_singleton, hready, hj.full] at hlen
      have hcap := k'.sched.ready.len_le
      omega

/-- Any number of forks can fail, and each uses up a pid. -/
theorem exists_stalled (hj : Jammed L k₀)
    (hinv₀ : Inv L R (k₀.store.mem.pfa.exhausted = false) k₀)
    (hsafe : k₀.store.mem.pfa.exhausted = false) (n : Nat) :
    ∃ k, Stalled L k₀ k ∧ k.sched.nextPid = pidAfter^[n] k₀.sched.nextPid := by
  induction n with
  | zero =>
      refine ⟨k₀, ⟨.boot, ?_, rfl, le_max_left _ _⟩, rfl⟩
      exact ⟨fun _ _ => rfl, rfl, rfl, rfl, rfl, rfl, rfl, rfl, rfl, rfl⟩
  | succ n ih =>
      obtain ⟨k, hk, hpid⟩ := ih
      obtain ⟨k', hk', hpid'⟩ := hk.fork hj hinv₀ hsafe
      refine ⟨k', hk', ?_⟩
      rw [hpid', hpid, Function.iterate_succ_apply']

/-- A fork that succeeds while a process has the pid of the counter. -/
theorem Inv.fork_collides (h : Inv L R safe k) (frame : SyscallFrame)
    (hstarved : ¬ k.ForkStarved) (hready : k.sched.ready.len < readyQueueCapacity) {p : Nat}
    (hp : p ∈ k.members) (hpid : (k.pcbs p).pid = k.sched.nextPid) :
    ¬ DistinctPids (k.sysFork L frame).2 := by
  have hspec := sysFork_spec h frame
  have hsucceeds := sysFork_succeeds h frame hstarved hready
  generalize k.sysFork L frame = r at hspec hsucceeds
  cases hspec with
  | failed inv aside short => exact absurd aside.forked hsucceeds
  | @forked k' child d base inv forked spent =>
      intro hdistinct
      have hnodup := hdistinct.distinct
      rw [forked.members, List.map_append, List.nodup_append] at hnodup
      apply hnodup.2.2 (k'.pcbs p).pid (List.mem_map_of_mem hp) (k'.pcbs child).pid
        (List.mem_map_of_mem List.mem_cons_self)
      rw [forked.others p (mem_holders hp), forked.pcb, hpid]
      rfl

/-- The first process exits and the next one forks while the counter is at the pid of a
process: the child gets that pid. -/
theorem Stalled.collide (h : Stalled L k₀ k) (hj : Jammed L k₀)
    (hinv₀ : Inv L R (k₀.store.mem.pfa.exhausted = false) k₀)
    (hsafe : k₀.store.mem.pfa.exhausted = false) {p : Nat} (hp : p ∈ k₀.sched.ready.toList)
    (hpid : k.sched.nextPid = (k₀.pcbs p).pid) :
    ∃ k', Reachable L k₀ k' ∧ ¬ DistinctPids k' := by
  have hinv := hinv₀.reachable h.reachable
  have hidle : k.idle = false := h.aside.idle.trans hj.idle
  have hready : k.sched.ready = k₀.sched.ready := by rw [h.aside.sched]
  have hexit := trap_exit (L := L) (sampleCall 5) (fun _ => none) hidle (by decide) rfl
  have hspec := sysExit_spec hinv (sampleCall 5)
  generalize k.sysExit (sampleCall 5) = r at hexit hspec
  cases hspec with
  | idle inv idle kept members alone =>
      rw [hready] at alone
      rw [alone] at hp
      cases hp
  | @switched r k₁ frame inv₁ exited =>
      have hk₁ : Reachable L k₀ k₁ := .trap h.reachable hexit
      have hp₁ : p ∈ k₁.members := by
        rw [← exited.ready.mem_iff, hready]
        exact hp
      have hpid₁ : (k₁.pcbs p).pid = k₁.sched.nextPid := by
        rw [exited.pids, exited.nextPid, hpid,
          h.aside.pcbs p (mem_holders (List.mem_cons_of_mem _ hp))]
      have hlen : k₁.sched.ready.len < readyQueueCapacity := by
        have hcount := exited.ready.length_eq
        rw [members, List.length_cons, RingBuffer.length_toList, RingBuffer.length_toList, hready,
          hj.full] at hcount
        omega
      have hstarved : ¬ k₁.ForkStarved := by
        obtain ⟨hframes, hheap⟩ := h.room hj
        have hcount := exited.count
        exact inv₁.not_starved hsafe (by omega) (by rw [exited.heap]; exact hheap)
      have hfork := trap_fork (L := L) (sampleCall 3) (fun _ => none)
        (exited.idle.trans hidle) (by decide) rfl
      exact ⟨_, .trap hk₁ hfork, inv₁.fork_collides (sampleCall 3) hstarved hlen hp₁ hpid₁⟩

/-- The heap does not end below its start. -/
theorem Inv.heapStart_le (h : Inv L R safe k) : L.heapStart ≤ k.store.heap.heapCurrent := by
  obtain ⟨ts, hheap⟩ := h.holding.store.heap
  exact (hheap.ok_of_live (h.live (mem_holders k.current_mem)).1).shape.tiled.le

/-- After 33 modules have filled the queue, forks fail until the counter is back at the pid
of a process that waits; the first process exits, and the next one forks. -/
theorem pids_collide :
    ∃ k₀ k, kmain sampleLayout (sampleBoot 33 (by decide) .rr) = some k₀ ∧
      Reachable sampleLayout k₀ k ∧ ¬ DistinctPids k := by
  obtain ⟨k₀, hboot, hroom, hlen, hdropped, hexited⟩ :=
    sampleBoot_room (show 0 < 33 by decide) (by decide) SchedulingPolicy.rr
  have hinv := kmain_inv hboot
  have hstarted := kmain_started hboot
  have hcap : readyQueueCapacity = 32 := rfl
  have hj : Jammed sampleLayout k₀ := by
    have hframes := hroom.frames
    have hheap := hroom.heap
    have hlow := hinv.heapStart_le
    have hstart : sampleLayout.heapStart = 0xC0200000 := by decide
    have hcrowd := hinv.forkCrowd_eq
    rw [holders, hexited, hdropped, List.append_nil, List.append_nil, hlen] at hcrowd
    refine ⟨?_, hstarted.idle, by omega, by omega, by omega, by omega⟩
    rw [members, List.length_cons, RingBuffer.length_toList] at hlen
    omega
  have hne : k₀.sched.ready.toList ≠ [] := by
    rw [← List.length_pos_iff, RingBuffer.length_toList, hj.full]
    decide
  obtain ⟨p, hp⟩ := List.exists_mem_of_ne_nil _ hne
  obtain ⟨hpos, hbelow⟩ := hstarted.pids p (List.mem_cons_of_mem _ hp)
  have hcounter := hstarted.counter
  have hmods : (sampleBoot 33 (by decide) .rr).mods.length = 33 := by simp [sampleBoot]
  obtain ⟨n, hn⟩ := exists_pidAfter_iterate (show k₀.sched.nextPid < 2 ^ 32 by omega) hpos
    (by omega)
  obtain ⟨k, hk, hpid⟩ := exists_stalled hj hinv hroom.plenty n
  obtain ⟨k', hk', hsame⟩ := hk.collide hj hinv hroom.plenty hp (hpid.trans hn)
  exact ⟨k₀, k', hboot, hk', hsame⟩

end Pids

end Kernel

end SoKernel
