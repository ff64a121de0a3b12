import SoKernel.Scheduler.Rotation
import SoKernel.Syscall.ExecBuilds
import SoKernel.Syscall.ForkCopies
import SoKernel.Syscall.ModuleLookup

/-!
# Calls that get through

The kernel may refuse a call: a fork for want of memory or of room in the queue, an exec for
want of frames, a tick or an exit for want of another process.  This module says when a call
does what it is for, with the trap that makes it.  Put together, the calls make a run of two
processes in which an image is loaded, a page is written, a child is made, the processor
changes hands and a process leaves.

Main results:

- Theorems {lit}`Inv.fork_proceeds`, {lit}`Inv.exec_proceeds`, {lit}`Inv.tick_proceeds` and
  {lit}`Inv.exit_proceeds`: traps that end as asked for.
- Theorem {lit}`Executed.userWrite_stack`: a process can write its stack page after an exec.
- Theorem {lit}`sampleRun_exists`: the run.
-/

namespace SoKernel

namespace Kernel

section Progress

variable {L : Layout} {R : Nat → Prop} {safe : Prop} {k k' : Kernel} (frame : SyscallFrame)
  (kernelByte : Nat → Option UInt8)

/-! ## The calls -/

/-- With enough memory and room in the queue, a fork makes a child. -/
theorem Inv.fork_proceeds (h : Inv L R safe k) (hidle : k.idle = false)
    (hring : frame.cs % 4 = 3) (hnumber : frame.eax = 3) (hstarved : ¬ k.ForkStarved)
    (hready : k.sched.ready.len < readyQueueCapacity) :
    ∃ k' child d base, k.trap L (.syscall frame kernelByte) =
        some (k', returned frame k.sched.nextPid) ∧
      Inv L R safe k' ∧ Forked k frame k' child d base := by
  have htrap := trap_fork (L := L) frame kernelByte hidle hring hnumber
  have hspec := sysFork_spec h frame
  have hsucceeds := sysFork_succeeds h frame hstarved hready
  generalize k.sysFork L frame = r at htrap hspec hsucceeds
  cases hspec with
  | failed inv aside short => exact absurd aside.forked hsucceeds
  | @forked k' child d base inv forked spent => exact ⟨k', child, d, base, htrap, inv, forked⟩

/-- An exec does not touch the heap. -/
theorem execModule_heap (k : Kernel) (frame : SyscallFrame) (modStart modEnd : Nat) :
    (k.execModule frame modStart modEnd).2.1.store.heap = k.store.heap := by
  unfold execModule
  simp only
  split
  · rfl
  · split
    · rfl
    · rfl

/-- An exec takes no more frames than the image needs. -/
theorem Inv.execModule_freeCount (h : Inv L R safe k) (frame : SyscallFrame)
    (modStart modEnd : Nat) : k.store.mem.pfa.freeCount ≤
      (k.execModule frame modStart modEnd).2.1.store.mem.pfa.freeCount +
        Memory.imageDemand (modEnd - modStart) := by
  rcases h.execModule_memory frame modStart modEnd with
    ⟨d, m, -, hcount, hstore, hmem, -⟩ | ⟨m, hrestored, hrun⟩
  · rw [hmem, hstore.spaces.freeCount_destroy]
    change k.store.mem.pfa.freeCount ≤ m.pfa.freeCount + _ + _
    omega
  · rw [hrun]
    change k.store.mem.pfa.freeCount ≤ m.pfa.freeCount + _
    rw [Pfa.freeCount_congr hrestored.same.startFrame hrestored.same.totalFrames hrestored.used]
    exact Nat.le_add_right _ _

/-- An exec of a module that is found, is not empty and has the memory loads its image. -/
theorem Inv.exec_proceeds (h : Inv L R safe k) (hidle : k.idle = false)
    (hring : frame.cs % 4 = 3) (hnumber : frame.eax = 2) {modStart modEnd : Nat}
    (hfound : execLookup k.modules (k.store.mem.readVirtual kernelByte) frame.ebx =
      some (some (modStart, modEnd)))
    (hlt : modStart < modEnd)
    (hroom : Memory.imageDemand (modEnd - modStart) ≤ k.store.mem.pfa.freeCount) :
    ∃ k' d, k.trap L (.syscall frame kernelByte) =
        some (k', returned (execFrame frame ⟨4096 * d, 0, 0xBFFFFFF8⟩) 0) ∧
      Inv L R safe k' ∧ Executed k modStart modEnd k' d ∧
      k'.store.heap = k.store.heap ∧
      k.store.mem.pfa.freeCount ≤
        k'.store.mem.pfa.freeCount + Memory.imageDemand (modEnd - modStart) := by
  have hspec := execModule_spec h frame modStart modEnd
  have hheap := execModule_heap k frame modStart modEnd
  have hcount := h.execModule_freeCount frame modStart modEnd
  have hrun := k.sysExec_eq_lookup kernelByte frame
  rw [hfound, Option.map_some] at hrun
  simp only at hrun
  generalize k.execModule frame modStart modEnd = r at hspec hheap hcount hrun
  cases hspec with
  | failed inv aside short => omega
  | @done k' d inv executed room =>
      have htrap : k.syscallDispatcher L kernelByte frame.eax frame =
          some (0, k', execFrame frame ⟨4096 * d, 0, 0xBFFFFFF8⟩) := by
        rw [hnumber]
        exact hrun
      exact ⟨k', d, trap_syscall hidle hring htrap, inv, executed, hheap, hcount⟩

/-- After an exec the process can write its stack page. -/
theorem Executed.userWrite_stack {modStart modEnd d : Nat} (he : Executed k modStart modEnd k' d)
    (h : Inv L R safe k') (hidle : k'.idle = false) {va : Nat} (hlo : 0xBFFFF000 ≤ va)
    (hhi : va < 0xC0000000) (byte : UInt8) :
    ∃ k₂, k'.userWrite va byte = some k₂ := by
  have hdir : k'.store.mem.cr3 / 4096 = d := by
    rw [h.holding.cr3, he.pcb]
    exact Nat.mul_div_cancel_left d (by norm_num)
  have hi : va / 2 ^ 22 = 767 := by omega
  have hj : va / 2 ^ 12 % 1024 = 1023 := by omega
  -- The entry of the page has flags, so it stands in a table.
  have hflags := he.image.stackFlags
  have hodd : k'.store.mem.phys.word d 767 % 2 = 1 := by
    by_contra hne
    rw [Memory.pte, if_neg hne] at hflags
    cases hflags
  have htable := he.image.tables 767 (by norm_num) hodd
  rw [Memory.pte, if_pos hodd] at hflags
  have hcond : k'.idle = false ∧ va < 2 ^ 32 ∧
      userWritable (k'.store.mem.phys.word (k'.store.mem.cr3 / 4096) (va / 2 ^ 22)) = true ∧
      userWritable (k'.store.mem.phys.word (k'.store.mem.phys.word (k'.store.mem.cr3 / 4096)
        (va / 2 ^ 22) / 4096) (va / 2 ^ 12 % 1024)) = true := by
    rw [hdir, hi, hj]
    simp only [userWritable, beq_iff_eq]
    exact ⟨hidle, by omega, by omega, by omega⟩
  apply Option.isSome_iff_exists.1
  unfold Kernel.userWrite
  simp only
  rw [if_pos hcond]
  rfl

/-- At the end of a slice a tick hands over to the first process of a queue that has room. -/
theorem Inv.tick_proceeds (h : Inv L R safe k) (frame : PitIrqFrameUser) (hidle : k.idle = false)
    (hfifo : k.sched.schedulingPolicy ≠ .sjf)
    (hend : ¬ (k.sched.schedulingPolicy = .rr ∧ k.sched.remainingTicks > 1))
    (hon : k.sched.preemptionEnabled = true) (hring : frame.common.cs &&& 3 = 3)
    (hroom : k.sched.ready.len < readyQueueCapacity) :
    ∃ k' out, k.trap L (.timer frame) = some (k', out) ∧ Inv L R safe k' ∧ Rescheduled k k' ∧
      k'.members = k.members.rotate 1 := by
  have htrap := trap_timer (L := L) hidle frame
  obtain ⟨-, hmembers, -⟩ := tick_rotates frame hfifo hend hon hring h.zero_notMem hroom
  have hkept := (rescheduled_tick k).trans (h.tick.rescheduled (frameUserToContext frame) true .pit)
  rw [← timerInterruptHandler_kernel frame hon hring] at hkept
  exact ⟨_, _, htrap, h.trap htrap, hkept, hmembers⟩

/-- An exit hands over to a process of the queue when there is one. -/
theorem Inv.exit_proceeds (h : Inv L R safe k) (hidle : k.idle = false) (hring : frame.cs % 4 = 3)
    (hnumber : frame.eax = 5) (hothers : k.sched.ready.toList ≠ []) :
    ∃ k' out, k.trap L (.syscall frame kernelByte) = some (k', out) ∧ Inv L R safe k' ∧
      Exited k k' := by
  have htrap := trap_exit (L := L) frame kernelByte hidle hring hnumber
  have hspec := sysExit_spec h frame
  generalize k.sysExit frame = r at htrap hspec
  cases hspec with
  | switched inv exited => exact ⟨_, _, htrap, inv, exited⟩
  | idle inv idle kept members alone => exact absurd alone hothers

/-! ## A run -/

/-- Of two processes the first one loads its image again, writes its stack and forks; a tick
hands over to the second one, which exits. -/
structure SampleRun (k₀ k₁ k₂ k₃ k₄ k₅ : Kernel) (out₁ out₃ out₄ out₅ : ProcessContext)
    (p q child : Nat) : Prop where
  start : k₀.members = [p, q] ∧ k₀.dropped = []
  exec : k₀.trap sampleLayout (.syscall sampleExec (samplePath 97)) = some (k₁, out₁)
  loaded : out₁.eax = 0 ∧ k₁.members = [p, q] ∧
    moduleLoaderFindModuleByPath k₀.modules [97] = some (0x300000, 0x301000)
  write : k₁.userWrite 0xBFFFF000 42 = some k₂
  written : k₂.members = [p, q] ∧ k₂.forked = []
  fork : k₂.trap sampleLayout (.syscall (sampleCall 3) fun _ => none) = some (k₃, out₃)
  forked : k₃.members = [p, q, child] ∧ k₃.forked = [child]
  tick : k₃.trap sampleLayout (.timer sampleTick) = some (k₄, out₄)
  switched : k₄.members = [q, child, p]
  exit : k₄.trap sampleLayout (.syscall (sampleCall 5) fun _ => none) = some (k₅, out₅)
  left : k₅.members.Perm [child, p] ∧ k₅.exited = [q] ∧ k₅.idle = false

theorem SampleRun.reachable {k₀ k₁ k₂ k₃ k₄ k₅ : Kernel} {out₁ out₃ out₄ out₅ : ProcessContext}
    {p q child : Nat} (h : SampleRun k₀ k₁ k₂ k₃ k₄ k₅ out₁ out₃ out₄ out₅ p q child)
    (hplenty : k₀.store.mem.pfa.exhausted = false) : Reachable sampleLayout k₀ k₅ := by
  have hwritten : Reachable sampleLayout k₀ k₂ := .write (.trap .boot h.exec) hplenty h.write
  exact ((hwritten.trap h.fork).trap h.tick).trap h.exit

/-- Two processes under FCFS, with memory for a fork. -/
structure Pair (k : Kernel) (p q : Nat) : Prop where
  members : k.members = [p, q]
  idle : k.idle = false
  policy : k.sched.schedulingPolicy = .fcfs
  preemption : k.sched.preemptionEnabled = true
  fed : ¬ k.ForkStarved
  forked : k.forked = []
  exited : k.exited = []

/-- The first two steps. -/
theorem sampleRun_written :
    ∃ k₀ k₁ k₂ out₁ p q, kmain sampleLayout (sampleBoot 2 (by decide) .fcfs) = some k₀ ∧
      k₀.store.mem.pfa.exhausted = false ∧ (k₀.members = [p, q] ∧ k₀.dropped = []) ∧
      k₀.trap sampleLayout (.syscall sampleExec (samplePath 97)) = some (k₁, out₁) ∧
      (out₁.eax = 0 ∧ k₁.members = [p, q] ∧
        moduleLoaderFindModuleByPath k₀.modules [97] = some (0x300000, 0x301000)) ∧
      k₁.userWrite 0xBFFFF000 42 = some k₂ ∧ Pair k₂ p q := by
  obtain ⟨k₀, hboot, hroom, hlen, hdropped, hexited⟩ :=
    sampleBoot_room (show 0 < 2 by decide) (by decide) SchedulingPolicy.fcfs
  have hinv₀ := kmain_inv hboot
  have hstarted := kmain_started hboot
  have hframes := hroom.frames
  have hheap := hroom.heap
  obtain ⟨q, hq⟩ : ∃ q, k₀.sched.ready.toList = [q] := by
    rw [members, List.length_cons] at hlen
    exact List.length_eq_one_iff.1 (Nat.succ.inj hlen)
  have hmembers₀ : k₀.members = [k₀.sched.currentPcb, q] := by rw [members, hq]
  have hfound : moduleLoaderFindModuleByPath k₀.modules [97] = some (0x300000, 0x301000) := by
    rw [hstarted.modules]
    decide
  have hlookup : execLookup k₀.modules (k₀.store.mem.readVirtual (samplePath 97)) sampleExec.ebx =
      some (some (0x300000, 0x301000)) := by
    rw [execLookup, samplePath_read k₀.store.mem (by decide), Option.map_some, Option.bind_some,
      hfound]
  have hdemand : Memory.imageDemand (0x301000 - 0x300000) = 5 := by decide
  obtain ⟨k₁, d, hexec, hinv₁, he, hheap₁, hcount₁⟩ := hinv₀.exec_proceeds sampleExec
    (samplePath 97) hstarted.idle (by decide) rfl hlookup (by norm_num) (by rw [hdemand]; omega)
  have hmembers₁ : k₁.members = [k₀.sched.currentPcb, q] := by
    rw [← hmembers₀, members, members, he.sched]
  obtain ⟨k₂, hwrite⟩ := he.userWrite_stack hinv₁ (he.idle.trans hstarted.idle)
    (show 0xBFFFF000 ≤ 0xBFFFF000 by norm_num) (by norm_num) 42
  obtain ⟨i, j, f, hpage⟩ := hinv₁.writePage hroom.plenty hwrite
  refine ⟨k₀, k₁, k₂, _, k₀.sched.currentPcb, q, hboot, hroom.plenty, ⟨hmembers₀, hdropped⟩, hexec,
    ⟨rfl, hmembers₁, hfound⟩, hwrite, ?_⟩
  -- A user write changes no field but the bytes of memory.
  have hk₂ := hpage.kernel
  have hsched₂ : k₂.sched = k₀.sched := by
    rw [hk₂]
    exact he.sched
  constructor
  · rw [← hmembers₀, members, members, hsched₂]
  · rw [hk₂]
    exact he.idle.trans hstarted.idle
  · rw [hsched₂]
    exact hstarted.policy
  · rw [hsched₂]
    exact hstarted.preemption
  · have hcount₂ : k₂.store.mem.pfa = k₁.store.mem.pfa := by
      rw [hk₂]
      rfl
    have hheap₂ : k₂.store.heap = k₀.store.heap := by
      rw [hk₂]
      exact hheap₁
    refine (hinv₁.userWrite hroom.plenty hwrite).not_starved hroom.plenty ?_ ?_
    · rw [hcount₂]
      omega
    · rw [hheap₂]
      omega
  · rw [hk₂]
    exact he.forked.trans hstarted.forked
  · rw [hk₂]
    exact he.exited.trans hexited

/-- The other three. -/
theorem Pair.rest {p q : Nat} (hp : Pair k p q) (h : Inv sampleLayout R safe k) :
    ∃ k₃ k₄ k₅ out₃ out₄ out₅ child,
      k.trap sampleLayout (.syscall (sampleCall 3) fun _ => none) = some (k₃, out₃) ∧
      (k₃.members = [p, q, child] ∧ k₃.forked = [child]) ∧
      k₃.trap sampleLayout (.timer sampleTick) = some (k₄, out₄) ∧ k₄.members = [q, child, p] ∧
      k₄.trap sampleLayout (.syscall (sampleCall 5) fun _ => none) = some (k₅, out₅) ∧
      k₅.members.Perm [child, p] ∧ k₅.exited = [q] ∧ k₅.idle = false := by
  have hready : ∀ {k' : Kernel} {ps : List Nat}, k'.members = ps →
      k'.sched.ready.len + 1 = ps.length := by
    rintro k' ps hps
    rw [← hps, Kernel.members, List.length_cons, RingBuffer.length_toList]
  have hcap : readyQueueCapacity = 32 := rfl
  have hlen := hready hp.members
  obtain ⟨k₃, child, d, base, hfork, hinv₃, hf⟩ := h.fork_proceeds (sampleCall 3) (fun _ => none)
    hp.idle (by decide) rfl hp.fed (by simp only [List.length_cons, List.length_nil] at hlen; omega)
  have hmembers₃ : k₃.members = [p, q, child] := by
    rw [hf.members, hp.members]
    rfl
  have hidle₃ : k₃.idle = false := hf.idle.trans hp.idle
  have hpolicy₃ : k₃.sched.schedulingPolicy = .fcfs := by
    rw [hf.sched]
    exact hp.policy
  have hon₃ : k₃.sched.preemptionEnabled = true := by
    rw [hf.sched]
    exact hp.preemption
  have hlen₃ := hready hmembers₃
  simp only [List.length_cons, List.length_nil] at hlen₃
  obtain ⟨k₄, out₄, htick, hinv₄, hkept, hmembers₄⟩ := hinv₃.tick_proceeds sampleTick hidle₃
    (by rw [hpolicy₃]; decide) (by rw [hpolicy₃]; rintro ⟨hrr, -⟩; cases hrr) hon₃ rfl (by omega)
  rw [hmembers₃] at hmembers₄
  have hcurrent₄ : k₄.sched.currentPcb = q := (List.cons.inj hmembers₄).1
  have hready₄ : k₄.sched.ready.toList = [child, p] := (List.cons.inj hmembers₄).2
  obtain ⟨k₅, out₅, hexit, -, hleft⟩ := hinv₄.exit_proceeds (sampleCall 5) (fun _ => none)
    (hkept.idle.trans hidle₃) (by decide) rfl (by rw [hready₄]; simp)
  refine ⟨k₃, k₄, k₅, _, out₄, out₅, child, hfork, ⟨hmembers₃, ?_⟩, htick, hmembers₄, hexit, ?_, ?_,
    ?_⟩
  · rw [hf.forked, hp.forked]
    rfl
  · rw [← hready₄]
    exact hleft.ready.symm
  · rw [hleft.exited, hkept.exited, hf.exited, hp.exited, hcurrent₄]
    rfl
  · exact hleft.idle.trans (hkept.idle.trans hidle₃)

/-- Boot leaves room for the run. -/
theorem sampleRun_exists :
    ∃ k₀ k₁ k₂ k₃ k₄ k₅ out₁ out₃ out₄ out₅ p q child,
      kmain sampleLayout (sampleBoot 2 (by decide) .fcfs) = some k₀ ∧
      k₀.store.mem.pfa.exhausted = false ∧
      SampleRun k₀ k₁ k₂ k₃ k₄ k₅ out₁ out₃ out₄ out₅ p q child := by
  obtain ⟨k₀, k₁, k₂, out₁, p, q, hboot, hplenty, hstart, hexec, hloaded, hwrite, hpair⟩ :=
    sampleRun_written
  have hinv := (((kmain_inv hboot).trap hexec).userWrite hplenty hwrite)
  obtain ⟨k₃, k₄, k₅, out₃, out₄, out₅, child, hfork, hforked, htick, hswitched, hexit, hleft⟩ :=
    hpair.rest hinv
  exact ⟨k₀, k₁, k₂, k₃, k₄, k₅, out₁, out₃, out₄, out₅, p, q, child, hboot, hplenty, hstart, hexec,
    hloaded, hwrite, ⟨hpair.members, hpair.forked⟩, hfork, hforked, htick, hswitched, hexit, hleft⟩

end Progress

end Kernel

end SoKernel
