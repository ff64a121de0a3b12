import SoKernel.Kernel.Progress

/-!
# The population of processes

Processes enter at boot and by fork and leave by exit.  This module counts them, and the
heap blocks they hold: a process that leaves keeps its control block and its kernel
stack, so the heap is exactly that of the living ones only as long as none has left.

Main results:

- Theorem {lit}`no_process_lost`: the current process and the ready queue are exactly those that
  came and have not left.
- Theorem {lit}`heap_is_of_the_living`: without exits that switch, the live heap blocks are those
  of the living processes.
-/

namespace SoKernel

namespace Kernel

section Population

variable {L : Layout} {R : Nat → Prop} {safe : Prop} {B : BootInfo} {k k₀ k' : Kernel}

/-! ## Who is there -/

/-- A scheduling call that does not switch leaves the processes where they are. -/
theorem schedule_zero_members (hz : 0 ∉ k.members) {c : ProcessContext} {requeue : Bool}
    {id : StatContext} (hcode : (k.schedulerScheduleFromContext c requeue id).1 = 0) :
    (k.schedulerScheduleFromContext c requeue id).2.1.members = k.members := by
  have hcases := schedule_cases c requeue id hz
  generalize k.schedulerScheduleFromContext c requeue id = r at hcases hcode
  cases hcases with
  | sliceLeft hrr hreq hleft => rfl
  | refused hreq hslice hfull => rfl
  | alone hreq hempty => rfl
  | switch hslice hroom hperm hfifo => cases hcode

/-- No process is lost or duplicated. -/
theorem no_process_lost (hboot : kmain L B = some k₀) (hk : Reachable L k₀ k) :
    k.members.Nodup ∧
      (k.members : Multiset Nat) = (k.booted : Multiset Nat) + k.forked - k.exited ∧
      ∀ (k' : Kernel) c requeue id, k'.sched = k.sched →
        (k'.schedulerScheduleFromContext c requeue id).1 = 0 →
          (k'.schedulerScheduleFromContext c requeue id).2.1.members = k.members := by
  have hinv := (kmain_inv hboot).reachable hk
  refine ⟨hinv.members_nodup, ?_, fun k' c requeue id hsched hcode => ?_⟩
  · rw [Multiset.coe_add, ← Multiset.coe_eq_coe.2 hinv.history, ← Multiset.coe_add,
      add_tsub_cancel_right]
  · have hmembers : k'.members = k.members := by
      unfold members
      rw [hsched]
    rw [← hmembers]
    refine schedule_zero_members ?_ hcode
    rw [hmembers]
    exact hinv.zero_notMem

theorem no_process_lost_sample_run :
    ∃ k₀ k₁ k₂ k₃ k₄ k₅ out₁ out₃ out₄ out₅ p q child,
      kmain sampleLayout (sampleBoot 2 (by decide) .fcfs) = some k₀ ∧
      SampleRun k₀ k₁ k₂ k₃ k₄ k₅ out₁ out₃ out₄ out₅ p q child ∧ k₅.members.Nodup ∧
      (k₅.members : Multiset Nat) = (k₅.booted : Multiset Nat) + k₅.forked - k₅.exited ∧
      ∀ c id, (k₅.schedulerScheduleFromContext c true id).1 = 0 →
        (k₅.schedulerScheduleFromContext c true id).2.1.members = k₅.members := by
  obtain ⟨k₀, k₁, k₂, k₃, k₄, k₅, out₁, out₃, out₄, out₅, p, q, child, hboot, hplenty, hrun⟩ :=
    sampleRun_exists
  obtain ⟨hnodup, hall, hcalls⟩ := no_process_lost hboot (hrun.reachable hplenty)
  exact ⟨k₀, k₁, k₂, k₃, k₄, k₅, out₁, out₃, out₄, out₅, p, q, child, hboot, hrun, hnodup, hall,
    fun c id => hcalls k₅ c true id rfl⟩

/-! ## What they hold -/

/-- A trap other than an exit that switches lets no process leave. -/
theorem Inv.trap_leaves (h : Inv L R safe k) {t : Trap} {out : ProcessContext}
    (ht : k.trap L t = some (k', out)) (hexit : t.IsExit → k.sched.ready.toList = []) :
    k'.exited = k.exited ∧ k'.dropped = k.dropped := by
  cases (h.trap_effect ht).2 with
  | requeued kept members => exact ⟨kept.exited, kept.dropped⟩
  | gaveUp aside counter => exact ⟨aside.exited, aside.dropped⟩
  | executed executed => exact ⟨executed.exited, executed.dropped⟩
  | forked call forked => exact ⟨forked.exited, forked.dropped⟩
  | exited call exited =>
      have hnone := exited.ready.length_eq
      rw [hexit call] at hnone
      cases hnone
  | idle call kept members => exact ⟨kept.exited, kept.dropped⟩

/-- Along runs without an exit that switches, no process has left. -/
theorem stay_of_reachableWhere (hboot : kmain L B = some k₀)
    (hk : ReachableWhere L k₀ (fun k t => t.IsExit → k.sched.ready.toList = []) k) :
    k.exited = [] ∧ k.dropped = k₀.dropped := by
  have hinv₀ := kmain_inv hboot
  induction hk with
  | boot => exact ⟨(kmain_started hboot).exited, rfl⟩
  | trap hk hok ht ih =>
      obtain ⟨hexited, hdropped⟩ := (hinv₀.reachable hk.reachable).trap_leaves ht hok
      rw [hexited, hdropped]
      exact ih
  | write hk hsafe hw ih =>
      obtain ⟨i, j, f, hpage⟩ := (hinv₀.reachable hk.reachable).writePage hsafe hw
      rw [hpage.kernel]
      exact ih

/-- After a boot that could enqueue every process it made, and as long as no process exits
while another is ready, the live heap blocks are a control block and a kernel stack for
each process. -/
theorem heap_is_of_the_living (hboot : kmain L B = some k₀) (hdropped : k₀.dropped = [])
    (hk : ReachableWhere L k₀ (fun k t => t.IsExit → k.sched.ready.toList = []) k) :
    k.store.heap.live.Perm (k.members.flatMap k.blocks) := by
  have hinv := (kmain_inv hboot).reachable hk.reachable
  obtain ⟨hexited, hdrop⟩ := stay_of_reachableWhere hboot hk
  have hblocks := hinv.holding.blocks
  rw [allBlocks, holders, hexited, hdrop, hdropped] at hblocks
  simpa using hblocks

theorem heap_is_of_the_living_sample_run :
    ∃ k₀ k₁ k₂ k₃ k₄ k₅ out₁ out₃ out₄ out₅ p q child,
      kmain sampleLayout (sampleBoot 2 (by decide) .fcfs) = some k₀ ∧
      SampleRun k₀ k₁ k₂ k₃ k₄ k₅ out₁ out₃ out₄ out₅ p q child ∧
      k₄.store.heap.live.Perm (k₄.members.flatMap k₄.blocks) := by
  obtain ⟨k₀, k₁, k₂, k₃, k₄, k₅, out₁, out₃, out₄, out₅, p, q, child, hboot, hplenty, hrun⟩ :=
    sampleRun_exists
  -- The run up to the tick has no exit.
  have hexec : ¬ (Trap.syscall sampleExec (samplePath 97)).IsExit := by
    simp [Trap.IsExit, sampleExec, sampleCall]
  have hfork : ¬ (Trap.syscall (sampleCall 3) fun _ => none).IsExit := by
    simp [Trap.IsExit, sampleCall]
  have htick : ¬ (Trap.timer sampleTick).IsExit := id
  have hwritten : ReachableWhere sampleLayout k₀ (fun k t => t.IsExit → k.sched.ready.toList = [])
      k₂ :=
    .write (.trap .boot (fun hexit => absurd hexit hexec) hrun.exec) hplenty hrun.write
  have hforked := hwritten.trap (fun hexit => absurd hexit hfork) hrun.fork
  have hticked := hforked.trap (fun hexit => absurd hexit htick) hrun.tick
  exact ⟨k₀, k₁, k₂, k₃, k₄, k₅, out₁, out₃, out₄, out₅, p, q, child, hboot, hrun,
    heap_is_of_the_living hboot hrun.start.2 hticked⟩

/-- The first of two processes exits, and its blocks stay. -/
theorem exit_keeps_blocks :
    ∃ k₀ k, kmain sampleLayout (sampleBoot 2 (by decide) .rr) = some k₀ ∧
      Reachable sampleLayout k₀ k ∧ ¬ k.store.heap.live.Perm (k.members.flatMap k.blocks) := by
  obtain ⟨k₀, hboot, -, hlen, hdropped, hexited⟩ :=
    sampleBoot_runs (show 0 < 2 by decide) (by decide) SchedulingPolicy.rr
  have hinv := kmain_inv hboot
  have htrap := trap_exit (L := sampleLayout) (sampleCall 5) (fun _ => none)
    (kmain_started hboot).idle (by decide) rfl
  have hspec := sysExit_spec hinv (sampleCall 5)
  generalize k₀.sysExit (sampleCall 5) = r at htrap hspec
  refine ⟨k₀, r.2.1, hboot, .trap .boot htrap, fun hperm => ?_⟩
  have hinv' := hinv.trap htrap
  cases hspec with
  | switched inv exited =>
      -- Two processes hold two blocks each, and one of them is left.
      have hlive := hinv'.holding.blocks.length_eq
      have hcount := hperm.length_eq
      have hleft := exited.ready.length_eq
      have htwo : ∀ (k : Kernel) (ps : List Nat), (ps.flatMap k.blocks).length = 2 * ps.length := by
        intro k ps
        simp [Kernel.blocks, List.length_flatMap, Nat.mul_comm]
      rw [allBlocks, htwo, holders, List.length_append, List.length_append] at hlive
      rw [htwo] at hcount
      simp only [exited.exited, List.length_append, List.length_singleton] at hlive
      simp only at hcount hlive
      omega
  | idle inv idle kept members alone =>
      rw [Kernel.members, alone] at hlen
      cases hlen

end Population

end Kernel

end SoKernel
