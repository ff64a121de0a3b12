import SoKernel.Kernel.BootInvariant

/-!
# Rotation of the ready queue

A timer interrupt from ring 3 either uses up a tick of the running slice or hands the
processor to the head of the queue and sends the interrupted process to its end.  The
second needs a free place in the queue, because the interrupted process enters before
the next one leaves.

Main results:

- Theorem {lit}`tick_rotates`: the end of a slice rotates the queue.
- Theorem {lit}`round_robin_fair`: under round robin every process gets its whole quantum in turn.
- Theorem {lit}`rotation_iff_room`: at the end of a slice the queue rotates exactly when it is not
  full.
- Theorem {lit}`yield_gives_up_iff`: a yield rotates the queue exactly when it is not made in the
  middle of a round-robin slice.
-/

namespace SoKernel

namespace Kernel

section Rotation

variable {L : Layout} {B : BootInfo} {k k₀ : Kernel} {frame : PitIrqFrameUser}

/-! ## One tick -/

/-- The settings of the scheduler that ticks do not change. -/
def sameSettings (s s' : Scheduler) : Prop :=
  s'.preemptionEnabled = s.preemptionEnabled ∧ s'.schedulingPolicy = s.schedulingPolicy ∧
    s'.quantumTicks = s.quantumTicks

/-- The running slice goes on. -/
theorem tick_slice (hrr : k.sched.schedulingPolicy = .rr) (hon : k.sched.preemptionEnabled = true)
    (hring : frame.common.cs &&& 3 = 3) (hleft : k.sched.remainingTicks > 1)
    (hcur : k.sched.currentPcb ≠ 0) :
    (k.timerInterruptHandler frame).1.sched =
      { k.sched with remainingTicks := k.sched.remainingTicks - 1 } := by
  simp [timerInterruptHandler, hon, hring, schedulerScheduleFromContext, hcur, hrr, hleft]

/-- Once its slice is over, the process that calls goes behind a queue that has room, and the
first of the queue runs; with a full queue it goes on. -/
theorem requeue_outcome (c : ProcessContext) (id : StatContext)
    (hfifo : k.sched.schedulingPolicy ≠ .sjf)
    (hend : ¬ (k.sched.schedulingPolicy = .rr ∧ k.sched.remainingTicks > 1))
    (hzero : 0 ∉ k.members) :
    (k.sched.ready.len < readyQueueCapacity ∧ (k.schedulerScheduleFromContext c true id).1 = 1 ∧
        (k.schedulerScheduleFromContext c true id).2.1.members =
          k.sched.ready.toList ++ [k.sched.currentPcb] ∧
        sameSettings k.sched (k.schedulerScheduleFromContext c true id).2.1.sched ∧
        (k.sched.schedulingPolicy = .rr →
          (k.schedulerScheduleFromContext c true id).2.1.sched.remainingTicks =
            k.sched.quantumTicks)) ∨
      (k.sched.ready.len = readyQueueCapacity ∧
        (k.schedulerScheduleFromContext c true id).2.1.members = k.members) := by
  have hcases := schedule_cases c true id hzero
  generalize k.schedulerScheduleFromContext c true id = r at hcases
  cases hcases with
  | sliceLeft hrr hreq hleft => exact absurd ⟨hrr, hleft⟩ hend
  | refused hreq hslice hfull => exact .inr ⟨hfull, rfl⟩
  | alone hreq hempty => cases hreq
  | @switch next ready hslice hroom hperm hqueue =>
      refine .inl ⟨hroom rfl, rfl, (hqueue hfifo).symm, ⟨rfl, rfl, rfl⟩, fun hrr => ?_⟩
      simp only [switched, saved, hrr, if_true]

/-- With preemption on, a tick from ring 3 makes a scheduling call. -/
theorem timerInterruptHandler_kernel (frame : PitIrqFrameUser)
    (hon : k.sched.preemptionEnabled = true) (hring : frame.common.cs &&& 3 = 3) :
    (k.timerInterruptHandler frame).1 =
      (k.tick.schedulerScheduleFromContext (frameUserToContext frame) true .pit).2.1 := by
  simp only [timerInterruptHandler]
  rw [if_pos ⟨hon, hring⟩]
  rfl

/-- At the end of a slice the call ends in the part after the slice check. -/
theorem tick_outcome (frame : PitIrqFrameUser) (hfifo : k.sched.schedulingPolicy ≠ .sjf)
    (hend : ¬ (k.sched.schedulingPolicy = .rr ∧ k.sched.remainingTicks > 1))
    (hon : k.sched.preemptionEnabled = true) (hring : frame.common.cs &&& 3 = 3)
    (hzero : 0 ∉ k.members) :
    (k.sched.ready.len < readyQueueCapacity ∧
        (k.tick.schedulerScheduleFromContext (frameUserToContext frame) true .pit).1 = 1 ∧
        (k.timerInterruptHandler frame).1.members =
          k.sched.ready.toList ++ [k.sched.currentPcb] ∧
        sameSettings k.sched (k.timerInterruptHandler frame).1.sched ∧
        (k.sched.schedulingPolicy = .rr →
          (k.timerInterruptHandler frame).1.sched.remainingTicks = k.sched.quantumTicks)) ∨
      (k.sched.ready.len = readyQueueCapacity ∧
        (k.timerInterruptHandler frame).1.members = k.members) := by
  rw [timerInterruptHandler_kernel frame hon hring]
  exact requeue_outcome (k := k.tick) (frameUserToContext frame) .pit hfifo hend hzero

/-- The end of a slice rotates a queue that has room. -/
theorem tick_rotates (frame : PitIrqFrameUser) (hfifo : k.sched.schedulingPolicy ≠ .sjf)
    (hend : ¬ (k.sched.schedulingPolicy = .rr ∧ k.sched.remainingTicks > 1))
    (hon : k.sched.preemptionEnabled = true) (hring : frame.common.cs &&& 3 = 3)
    (hzero : 0 ∉ k.members) (hroom : k.sched.ready.len < readyQueueCapacity) :
    (k.tick.schedulerScheduleFromContext (frameUserToContext frame) true .pit).1 = 1 ∧
      (k.timerInterruptHandler frame).1.members = k.members.rotate 1 ∧
      sameSettings k.sched (k.timerInterruptHandler frame).1.sched ∧
      (k.sched.schedulingPolicy = .rr →
        (k.timerInterruptHandler frame).1.sched.remainingTicks = k.sched.quantumTicks) := by
  rcases tick_outcome frame hfifo hend hon hring hzero with ⟨-, hcode, hmembers, hrest⟩ | ⟨hfull, -⟩
  · refine ⟨hcode, ?_, hrest⟩
    rw [hmembers, members, List.rotate_cons_succ, List.rotate_zero]
  · omega

/-! ## Round robin -/

/-- The kernel after the first {lit}`i` of a sequence of timer interrupts. -/
def ticks (k : Kernel) (frames : Nat → PitIrqFrameUser) : Nat → Kernel
  | 0 => k
  | i + 1 => ((k.ticks frames i).timerInterruptHandler (frames i)).1

/-- A round robin scheduler with quantum {lit}`q` and the processes {lit}`P` in turn, {lit}`r`
ticks before the end of the slice. -/
structure InTurn (q : Nat) (P : List Nat) (r : Nat) (k : Kernel) : Prop where
  policy : k.sched.schedulingPolicy = .rr
  enabled : k.sched.preemptionEnabled = true
  quantum : k.sched.quantumTicks = q
  members : k.members = P
  remaining : k.sched.remainingTicks = r

/-- One tick of a round robin slice. -/
theorem InTurn.tick {q r : Nat} {P : List Nat} (h : InTurn q P r k)
    (hring : frame.common.cs &&& 3 = 3) (hzero : 0 ∉ P) (hlen : P.length ≤ readyQueueCapacity) :
    (r > 1 → InTurn q P (r - 1) (k.timerInterruptHandler frame).1) ∧
      (r ≤ 1 → InTurn q (P.rotate 1) q (k.timerInterruptHandler frame).1) := by
  have hzero' : 0 ∉ k.members := h.members ▸ hzero
  constructor
  · intro hr
    have hsched := tick_slice h.policy h.enabled hring (h.remaining ▸ hr)
      fun hz => hzero' (hz ▸ List.mem_cons_self)
    refine ⟨?_, ?_, ?_, ?_, ?_⟩
    · rw [hsched]
      exact h.policy
    · rw [hsched]
      exact h.enabled
    · rw [hsched]
      exact h.quantum
    · rw [← h.members, Kernel.members, hsched]
      rfl
    · rw [hsched, ← h.remaining]
  · intro hr
    have hroom : k.sched.ready.len < readyQueueCapacity := by
      have hcount := congrArg List.length h.members
      rw [Kernel.members, List.length_cons, RingBuffer.length_toList] at hcount
      omega
    obtain ⟨-, hmembers, ⟨hon, hpol, hquantum⟩, hremaining⟩ := tick_rotates _ (by rw [h.policy]; decide)
      (fun hmore => by rw [h.remaining] at hmore; omega) h.enabled hring hzero' hroom
    exact ⟨hpol.trans h.policy, hon.trans h.enabled, hquantum.trans h.quantum,
      hmembers.trans (by rw [h.members]), (hremaining h.policy).trans h.quantum⟩

/-- After any number of ticks the processes have been rotated once for each whole slice. -/
theorem InTurn.ticks {q : Nat} {P : List Nat} (hq : 1 ≤ q) (h : InTurn q P q k)
    {frames : Nat → PitIrqFrameUser} (hring : ∀ i, (frames i).common.cs &&& 3 = 3)
    (hzero : 0 ∉ P) (hlen : P.length ≤ readyQueueCapacity) (i : Nat) :
    InTurn q (P.rotate (i / q)) (q - i % q) (k.ticks frames i) := by
  induction i with
  | zero => simpa [Kernel.ticks] using h
  | succ i ih =>
      have hmod : i % q < q := Nat.mod_lt _ (by omega)
      have hzero' : 0 ∉ P.rotate (i / q) := fun hmem => hzero (List.mem_rotate.1 hmem)
      obtain ⟨hslice, hturn⟩ := ih.tick (hring i) hzero' (by rw [List.length_rotate]; exact hlen)
      have hpos : 0 < q := hq
      have hi : q * (i / q) + i % q = i := Nat.div_add_mod i q
      by_cases hlast : i % q + 1 = q
      · have hsucc : i + 1 = q * (i / q + 1) := by
          rw [Nat.mul_succ]
          omega
        have hdiv : (i + 1) / q = i / q + 1 := by
          rw [hsucc, Nat.mul_div_cancel_left _ hpos]
        have hzmod : (i + 1) % q = 0 := by
          rw [hsucc, Nat.mul_mod_right]
        rw [hdiv, hzmod, ← List.rotate_rotate]
        exact hturn (by omega)
      · have hsucc : i + 1 = q * (i / q) + (i % q + 1) := by omega
        have hdiv : (i + 1) / q = i / q := by
          rw [hsucc, Nat.mul_add_div hpos, Nat.div_eq_of_lt (show i % q + 1 < q by omega), Nat.add_zero]
        have hmod' : (i + 1) % q = i % q + 1 := by
          rw [hsucc, Nat.mul_add_mod, Nat.mod_eq_of_lt (by omega)]
        rw [hdiv, hmod', ← Nat.sub_sub]
        exact hslice (by omega)

/-- Round robin is exactly fair: in {lit}`n * q` ticks each of {lit}`n` processes runs for
{lit}`q` ticks in turn, and the turn ends where it began. -/
theorem round_robin_fair {q n : Nat} (hq : 1 ≤ q) (hpos : 1 ≤ n) (hn : n ≤ 32) {P : List Nat}
    (hlen : P.length = n) (hzero : 0 ∉ P)
    (hpolicy : k.sched.schedulingPolicy = .rr) (hon : k.sched.preemptionEnabled = true)
    (hquantum : k.sched.quantumTicks = q) (hfresh : k.sched.remainingTicks = q)
    (hmembers : k.members = P) (frames : Nat → PitIrqFrameUser)
    (hring : ∀ i, (frames i).common.cs &&& 3 = 3) :
    (∀ i, i < n * q → P[i / q]? = some (k.ticks frames i).sched.currentPcb) ∧
      (k.ticks frames (n * q)).sched.currentPcb = k.sched.currentPcb ∧
      (k.ticks frames (n * q)).sched.ready.toList = k.sched.ready.toList ∧
      (k.ticks frames (n * q)).sched.remainingTicks = q := by
  have hstart : InTurn q P q k := ⟨hpolicy, hon, hquantum, hmembers, hfresh⟩
  have hcap : P.length ≤ readyQueueCapacity := by
    rw [hlen]
    exact hn
  have hrun := fun i => hstart.ticks hq hring hzero hcap i
  refine ⟨fun i hi => ?_, ?_⟩
  · have hturn : i / q < n := Nat.div_lt_of_lt_mul (by rw [Nat.mul_comm]; exact hi)
    have hhead := congrArg (fun l : List Nat => l[0]?) (hrun i).members
    simp only [List.getElem?_rotate (show 0 < P.length by omega), Nat.zero_add,
      Nat.mod_eq_of_lt (show i / q < P.length by omega)] at hhead
    rw [← hhead]
    rfl
  · have hend := hrun (n * q)
    rw [Nat.mul_div_cancel _ (by omega), ← hlen, List.rotate_length, Nat.mul_mod_left] at hend
    have hsame := hend.members.trans hmembers.symm
    rw [← hlen]
    exact ⟨(List.cons.inj hsame).1, (List.cons.inj hsame).2, hend.remaining⟩

theorem round_robin_fair_two_modules :
    ∃ k₀, kmain sampleLayout (sampleBoot 2 (by decide) .rr) = some k₀ ∧
      (∀ i, i < 2 * 3 → k₀.members[i / 3]? =
        some (k₀.ticks (fun _ => sampleTick) i).sched.currentPcb) ∧
      (k₀.ticks (fun _ => sampleTick) (2 * 3)).sched.currentPcb = k₀.sched.currentPcb := by
  obtain ⟨k₀, hboot, -, hlen, -⟩ :=
    sampleBoot_runs (show 0 < 2 by decide) (by decide) SchedulingPolicy.rr
  have hinv := kmain_inv hboot
  have hstarted := kmain_started hboot
  have hfair := round_robin_fair (q := 3) (by decide) (by decide) (by decide) hlen
    hinv.zero_notMem hstarted.policy hstarted.preemption hstarted.quantum.1
    hstarted.quantum.2 rfl (fun _ => sampleTick) (fun _ => by decide)
  exact ⟨k₀, hboot, hfair.1, hfair.2.1⟩

/-! ## The end of a slice -/

/-- Distinct processes that stay where they are have not been rotated. -/
theorem members_ne_rotated (hnodup : k.members.Nodup) (hready : 1 ≤ k.sched.ready.len) :
    k.members ≠ k.sched.ready.toList ++ [k.sched.currentPcb] := by
  intro hrot
  have hne : k.sched.ready.toList ≠ [] := by
    intro hnil
    have hzero := k.sched.ready.length_toList
    rw [hnil, List.length_nil] at hzero
    omega
  obtain ⟨head, rest, hlist⟩ := List.exists_cons_of_ne_nil hne
  rw [members, hlist] at hnodup
  rw [members, hlist, List.cons_append] at hrot
  exact List.ne_of_not_mem_cons (List.nodup_cons.1 hnodup).1 (List.cons.inj hrot).1

/-- At the end of a slice the queue rotates exactly when it has room for the interrupted
process. -/
theorem rotation_iff_room (hboot : kmain L B = some k₀) (hk : Reachable L k₀ k)
    (hend : k.sched.schedulingPolicy = .fcfs ∨
      k.sched.schedulingPolicy = .rr ∧ k.sched.remainingTicks ≤ 1)
    (hon : k.sched.preemptionEnabled = true) (hready : 1 ≤ k.sched.ready.len)
    (hring : frame.common.cs &&& 3 = 3) :
    (k.timerInterruptHandler frame).1.members = k.sched.ready.toList ++ [k.sched.currentPcb] ↔
      k.sched.ready.len < readyQueueCapacity := by
  have hinv := (kmain_inv hboot).reachable hk
  have hfifo : k.sched.schedulingPolicy ≠ .sjf := by
    rcases hend with hpol | ⟨hpol, -⟩
    · rw [hpol]
      decide
    · rw [hpol]
      decide
  have hslice : ¬ (k.sched.schedulingPolicy = .rr ∧ k.sched.remainingTicks > 1) := by
    rintro ⟨hrr, hmore⟩
    rcases hend with hpol | ⟨-, hle⟩
    · rw [hpol] at hrr
      cases hrr
    · omega
  rcases tick_outcome frame hfifo hslice hon hring hinv.zero_notMem with
    ⟨hroom, -, hmembers, -⟩ | ⟨hfull, hmembers⟩
  · exact ⟨fun _ => hroom, fun _ => hmembers⟩
  · refine ⟨fun hrot => ?_, fun hroom => by omega⟩
    rw [hmembers] at hrot
    exact absurd hrot (members_ne_rotated hinv.members_nodup hready)

theorem rotation_iff_room_two_modules :
    ∃ k₀, kmain sampleLayout (sampleBoot 2 (by decide) .fcfs) = some k₀ ∧
      ((k₀.timerInterruptHandler sampleTick).1.members =
          k₀.sched.ready.toList ++ [k₀.sched.currentPcb] ↔
        k₀.sched.ready.len < readyQueueCapacity) := by
  obtain ⟨k₀, hboot, -, hlen, -⟩ :=
    sampleBoot_runs (show 0 < 2 by decide) (by decide) SchedulingPolicy.fcfs
  have hstarted := kmain_started hboot
  rw [members, List.length_cons, RingBuffer.length_toList] at hlen
  exact ⟨k₀, hboot, rotation_iff_room hboot .boot (.inl hstarted.policy) hstarted.preemption
    (by omega) (by decide)⟩

/-- With 33 processes the first one keeps the processor. -/
theorem full_queue_keeps_current :
    ∃ k₀, kmain sampleLayout (sampleBoot 33 (by decide) .fcfs) = some k₀ ∧
      k₀.sched.schedulingPolicy = .fcfs ∧ k₀.sched.preemptionEnabled = true ∧
      k₀.sched.ready.len = readyQueueCapacity ∧ sampleTick.common.cs &&& 3 = 3 ∧
      (k₀.timerInterruptHandler sampleTick).1.members ≠
        k₀.sched.ready.toList ++ [k₀.sched.currentPcb] := by
  obtain ⟨k₀, hboot, -, hlen, -⟩ :=
    sampleBoot_runs (show 0 < 33 by decide) (by decide) SchedulingPolicy.fcfs
  have hinv := kmain_inv hboot
  have hstarted := kmain_started hboot
  have hfull : k₀.sched.ready.len = readyQueueCapacity := by
    rw [members, List.length_cons, RingBuffer.length_toList] at hlen
    exact Nat.succ.inj hlen
  refine ⟨k₀, hboot, hstarted.policy, hstarted.preemption, hfull, by decide, fun hrot => ?_⟩
  rcases tick_outcome (k := k₀) sampleTick
    (by rw [hstarted.policy]; decide) (fun hmore => by
      have hpol := hstarted.policy.symm.trans hmore.1
      cases hpol) hstarted.preemption (by decide) hinv.zero_notMem with ⟨hroom, -⟩ | ⟨-, hmembers⟩
  · omega
  · rw [hmembers] at hrot
    exact members_ne_rotated hinv.members_nodup (by rw [hfull]; decide) hrot

/-! ## Yields -/

/-- A yield is the scheduling call of the yielding process. -/
theorem sysYield_kernel (hz : 0 ∉ k.members) (hcr3 : k.store.mem.cr3 = k.current.pdt)
    (frame : SyscallFrame) :
    (k.sysYield frame).2.1 =
      (k.schedulerScheduleFromContext (ProcessContext.ofWords frame.words) true .yield).2.1 := by
  obtain ⟨code, k', context, hrun, hyield⟩ := sysYield_eq hz hcr3 frame
  rw [hyield, hrun]

/-- While its slice lasts, a process that yields keeps the processor. -/
theorem yield_in_slice (hz : 0 ∉ k.members) (hcr3 : k.store.mem.cr3 = k.current.pdt)
    (frame : SyscallFrame) (hrr : k.sched.schedulingPolicy = .rr)
    (hleft : k.sched.remainingTicks > 1) : (k.sysYield frame).2.1.members = k.members := by
  have hcur : k.sched.currentPcb ≠ 0 := fun h => hz (by simp [members, h])
  have hstays : k.schedulerScheduleFromContext (ProcessContext.ofWords frame.words) true .yield =
      (0, { k with sched := { k.sched with remainingTicks := k.sched.remainingTicks - 1 } },
        ProcessContext.ofWords frame.words) := by
    simp [schedulerScheduleFromContext, hcur, hrr, hleft]
  rw [sysYield_kernel hz hcr3, hstays]
  rfl

/-- A process that yields while others are ready goes to the end of the queue, and the first of
the queue runs, exactly when it is not in the middle of a round-robin slice. -/
theorem yield_gives_up_iff (hboot : kmain L B = some k₀) (hk : Reachable L k₀ k)
    (hpolicy : k.sched.schedulingPolicy = .fcfs ∨ k.sched.schedulingPolicy = .rr)
    (hready : 1 ≤ k.sched.ready.len) (hroom : k.sched.ready.len < readyQueueCapacity)
    (frame : SyscallFrame) :
    (k.sysYield frame).2.1.members = k.sched.ready.toList ++ [k.sched.currentPcb] ↔
      ¬ (k.sched.schedulingPolicy = .rr ∧ k.sched.remainingTicks > 1) := by
  have hinv := (kmain_inv hboot).reachable hk
  constructor
  · rintro hgave ⟨hrr, hleft⟩
    rw [yield_in_slice hinv.zero_notMem hinv.holding.cr3 frame hrr hleft] at hgave
    exact members_ne_rotated hinv.members_nodup hready hgave
  · intro hend
    have hfifo : k.sched.schedulingPolicy ≠ .sjf := by
      rcases hpolicy with hpol | hpol
      · rw [hpol]
        decide
      · rw [hpol]
        decide
    rw [sysYield_kernel hinv.zero_notMem hinv.holding.cr3]
    rcases requeue_outcome (ProcessContext.ofWords frame.words) .yield hfifo hend hinv.zero_notMem with
      ⟨-, -, hmembers, -⟩ | ⟨hfull, -⟩
    · exact hmembers
    · omega

theorem yield_gives_up_two_modules :
    ∃ k₀, kmain sampleLayout (sampleBoot 2 (by decide) .fcfs) = some k₀ ∧
      ((k₀.sysYield (sampleCall 4)).2.1.members =
          k₀.sched.ready.toList ++ [k₀.sched.currentPcb] ↔
        ¬ (k₀.sched.schedulingPolicy = .rr ∧ k₀.sched.remainingTicks > 1)) := by
  obtain ⟨k₀, hboot, -, hlen, -⟩ :=
    sampleBoot_runs (show 0 < 2 by decide) (by decide) SchedulingPolicy.fcfs
  rw [members, List.length_cons, RingBuffer.length_toList] at hlen
  exact ⟨k₀, hboot, yield_gives_up_iff hboot .boot (.inl (kmain_started hboot).policy) (by omega)
    (lt_of_le_of_lt (show k₀.sched.ready.len ≤ 1 by omega) (by decide)) (sampleCall 4)⟩

/-- Right after boot under round robin with a quantum of 3, a yield changes nobody's place. -/
theorem yield_in_slice_ignored :
    ∃ k₀, kmain sampleLayout (sampleBoot 2 (by decide) .rr) = some k₀ ∧
      k₀.sched.schedulingPolicy = .rr ∧ 1 ≤ k₀.sched.ready.len ∧
      k₀.sched.ready.len < readyQueueCapacity ∧
      (k₀.sysYield (sampleCall 4)).2.1.members ≠
        k₀.sched.ready.toList ++ [k₀.sched.currentPcb] := by
  obtain ⟨k₀, hboot, -, hlen, -⟩ :=
    sampleBoot_runs (show 0 < 2 by decide) (by decide) SchedulingPolicy.rr
  have hinv := kmain_inv hboot
  have hstarted := kmain_started hboot
  rw [members, List.length_cons, RingBuffer.length_toList] at hlen
  have hleft : k₀.sched.remainingTicks > 1 := by
    rw [hstarted.quantum.2]
    decide
  refine ⟨k₀, hboot, hstarted.policy, by omega,
    lt_of_le_of_lt (show k₀.sched.ready.len ≤ 1 by omega) (by decide), fun hgave => ?_⟩
  rw [yield_in_slice hinv.zero_notMem hinv.holding.cr3 _ hstarted.policy hleft] at hgave
  exact members_ne_rotated hinv.members_nodup (by omega) hgave

end Rotation

end Kernel

end SoKernel
