import SoKernel.Kernel.Events

/-!
# Accounting of processor time

Every tick is charged to the process that runs and to the processes that wait for it.  The
modules of the benchmark compute for a number of ticks and then exit.  For such a workload
the scheduler wastes nothing: whatever the policy and the quantum, the kernel is idle as soon
as every process has had the ticks that it needs, and not before.

Main results:

- Theorem {lit}`Loaded.step`: what an event of the workload leaves to be done.
- Theorem {lit}`makespan`: the workload takes exactly the ticks that its processes need.
-/

namespace SoKernel

/-- The ticks that each process has waited in the ready queue, and that it has run. -/
structure Meter where
  waited : Nat → Nat
  ran : Nat → Nat

/-- The meter at the start of a run. -/
def Meter.zero : Meter where
  waited := fun _ => 0
  ran := fun _ => 0

/-- Charge ticks to the processes that wait and to the one that runs. -/
def Meter.charge (m : Meter) (k : Kernel) (ticks : Nat) : Meter where
  waited := fun p => m.waited p + if p ∈ k.sched.ready.toList then ticks else 0
  ran := fun p => m.ran p + if p = k.sched.currentPcb then ticks else 0

/-- What a process that has run for {lit}`ran` ticks does in a workload where it needs
{lit}`need` of them: it computes, and exits at the end. -/
def Event.Works (ran need : Nat) : Event → Prop
  | .trap (.timer frame) _ => frame.common.cs &&& 3 = 3 ∧ ran < need
  | .trap (.syscall frame _) _ => frame.eax = 5 ∧ ran = need
  | .write _ _ => True

namespace Kernel

/-- An event with its charges. -/
structure MeteredStep (L : Layout) (safe : Prop) (s : Kernel × Meter) (e : Event)
    (s' : Kernel × Meter) : Prop where
  step : s.1.Step L safe e s'.1
  meter : s'.2 = s.2.charge s.1 e.ticks

/-- An event of a workload in which process {lit}`p` needs {lit}`w p` ticks. -/
structure WorkStep (L : Layout) (safe : Prop) (w : Nat → Nat) (s : Kernel × Meter) (e : Event)
    (s' : Kernel × Meter) : Prop where
  metered : MeteredStep L safe s e s'
  works : e.Works (s.2.ran s.1.sched.currentPcb) (w s.1.sched.currentPcb)

/-- What is left to do of a workload, in ticks and exits. -/
def workLeft (w : Nat → Nat) (s : Kernel × Meter) : Nat :=
  if s.1.idle then 0 else (s.1.members.map fun p => w p - s.2.ran p + 1).sum

/-- The workload of the processes of {lit}`k₀` after the given scheduling calls and ticks. -/
structure Loaded (w : Nat → Nat) (k₀ : Kernel) (calls ticks : Nat) (s : Kernel × Meter) :
    Prop where
  among : ∀ p ∈ s.1.members, p ∈ k₀.members
  atMost : ∀ p ∈ s.1.members, s.2.ran p ≤ w p
  done : ∀ p ∈ k₀.members, p ∉ s.1.members ∨ s.1.idle = true → s.2.ran p = w p
  left : calls + workLeft w s = (k₀.members.map fun p => w p + 1).sum
  ticks : ticks = (k₀.members.map s.2.ran).sum

section Accounting

variable {L : Layout} {R : Nat → Prop} {safe : Prop} {B : BootInfo} {k k₀ k' : Kernel}
  {w : Nat → Nat}

/-! ## One event of a workload -/

/-- A tick keeps the processes. -/
theorem Inv.tick_members (h : Inv L R safe k) {frame : PitIrqFrameUser} {out : ProcessContext}
    (ht : k.trap L (.timer frame) = some (k', out)) :
    k'.members.Perm k.members ∧ k'.idle = false := by
  obtain ⟨hidle, hserved⟩ := h.served ht
  cases hserved with
  | quiet hquiet => exact ⟨List.Perm.refl _, hidle⟩
  | requeued call hrun =>
      cases call with
      | timer henabled hring =>
          have hmembers := h.tick.schedule_members (frameUserToContext frame) .pit
          have hkept := (h.tick.rescheduled (frameUserToContext frame) true .pit).idle
          change k.tick.schedulerScheduleFromContext (frameUserToContext frame) true .pit = _ at hrun
          rw [hrun] at hmembers hkept
          exact ⟨hmembers, hkept.trans hidle⟩

/-- An exit takes the process that runs away, or leaves the kernel idle. -/
theorem Inv.exit_members (h : Inv L R safe k) {frame : SyscallFrame}
    {kernelByte : Nat → Option UInt8} {out : ProcessContext} (hnumber : frame.eax = 5)
    (ht : k.trap L (.syscall frame kernelByte) = some (k', out)) :
    k.sched.ready.toList.Perm k'.members ∧ k'.idle = false ∨
      k.sched.ready.toList = [] ∧ k'.members = k.members ∧ k'.idle = true := by
  obtain ⟨hidle, hcase⟩ := trap_cases ht
  cases hcase with
  | plain hring hno => exact absurd (hnumber ▸ hno) (by decide)
  | exec hring hno hrun => omega
  | fork hring hno hrun => omega
  | yield hring hno hrun => omega
  | exit hring hno hrun =>
      have hspec := sysExit_spec h frame
      rw [hrun] at hspec
      cases hspec with
      | switched inv exited => exact .inl ⟨exited.ready, exited.idle.trans hidle⟩
      | idle inv idle kept members alone => exact .inr ⟨alone, members, idle⟩

/-- A charge to one process of a list adds to its sum once. -/
theorem sum_charge {ps : List Nat} {c t : Nat} {f g : Nat → Nat} (hnodup : ps.Nodup) (hc : c ∈ ps)
    (hself : g c = f c + t) (hother : ∀ p ∈ ps, p ≠ c → g p = f p) :
    (ps.map g).sum = (ps.map f).sum + t := by
  have hperm := List.perm_cons_erase hc
  rw [(hperm.map g).sum_eq, (hperm.map f).sum_eq, List.map_cons, List.map_cons, List.sum_cons,
    List.sum_cons, hself]
  have hrest : (ps.erase c).map g = (ps.erase c).map f :=
    List.map_congr_left fun p hp => hother p (List.mem_of_mem_erase hp) fun heq =>
      (hnodup.mem_erase_iff.1 hp).1 heq
  rw [hrest]
  omega

/-- A tick of the workload. -/
theorem Loaded.tick {calls ticks : Nat} {m : Meter} (h : Loaded w k₀ calls ticks (k, m))
    (hinv : Inv L R safe k) (hnodup₀ : k₀.members.Nodup) {frame : PitIrqFrameUser}
    {out : ProcessContext} (ht : k.trap L (.timer frame) = some (k', out))
    (hmore : m.ran k.sched.currentPcb < w k.sched.currentPcb) :
    Loaded w k₀ (calls + 1) (ticks + 1) (k', m.charge k 1) := by
  obtain ⟨hperm, hidle'⟩ := hinv.tick_members ht
  have hidle : k.idle = false := (hinv.served ht).1
  have hran : ∀ p, p ≠ k.sched.currentPcb → (m.charge k 1).ran p = m.ran p := fun p hne => by
    simp only [Meter.charge, if_neg hne, Nat.add_zero]
  have hcur : (m.charge k 1).ran k.sched.currentPcb = m.ran k.sched.currentPcb + 1 := by
    simp only [Meter.charge, if_pos]
  refine ⟨fun p hp => h.among p (hperm.mem_iff.1 hp), fun p hp => ?_, fun p hp hout => ?_, ?_, ?_⟩
  · by_cases hpc : p = k.sched.currentPcb
    · rw [hpc, hcur]
      exact hmore
    · rw [hran p hpc]
      exact h.atMost p (hperm.mem_iff.1 hp)
  · have hgone : p ∉ k.members := by
      rcases hout with hout | hout
      · exact fun hmem => hout (hperm.mem_iff.2 hmem)
      · exact Bool.noConfusion (hidle'.symm.trans hout)
    rw [hran p fun heq => hgone (heq ▸ k.current_mem)]
    exact h.done p hp (.inl hgone)
  · have hleft := h.left
    simp only [workLeft, hidle, hidle', Bool.false_eq_true, if_false] at hleft ⊢
    rw [(hperm.map _).sum_eq]
    have hspent := sum_charge (t := 1) (f := fun p => w p - (m.charge k 1).ran p + 1)
      (g := fun p => w p - m.ran p + 1) hinv.members_nodup k.current_mem
      (by simp only [hcur]; omega) fun p _ hne => by simp only [hran p hne]
    omega
  · have hspent := sum_charge (t := 1) (f := m.ran) (g := (m.charge k 1).ran) hnodup₀
      (h.among _ k.current_mem) hcur fun p _ hne => hran p hne
    rw [hspent, ← h.ticks]

/-- An exit of the workload. -/
theorem Loaded.exit {calls ticks : Nat} {m : Meter} (h : Loaded w k₀ calls ticks (k, m))
    (hinv : Inv L R safe k) {frame : SyscallFrame} {kernelByte : Nat → Option UInt8}
    {out : ProcessContext} (hnumber : frame.eax = 5)
    (ht : k.trap L (.syscall frame kernelByte) = some (k', out))
    (hdone : m.ran k.sched.currentPcb = w k.sched.currentPcb) :
    Loaded w k₀ (calls + 1) ticks (k', m) := by
  have hidle : k.idle = false := (hinv.served ht).1
  have hleft := h.left
  simp only [workLeft, hidle, Bool.false_eq_true, if_false] at hleft
  rw [members, List.map_cons, List.sum_cons, hdone] at hleft
  -- A process that has left, or that exits now, has had its ticks.
  have hgone : ∀ p ∈ k₀.members, p ∉ k.sched.ready.toList → m.ran p = w p := by
    intro p hp hout
    by_cases hpc : p = k.sched.currentPcb
    · rw [hpc, hdone]
    · refine h.done p hp (.inl fun hmem => ?_)
      exact (List.mem_cons.1 hmem).elim hpc hout
  rcases hinv.exit_members hnumber ht with ⟨hperm, hidle'⟩ | ⟨hempty, hmembers, hidle'⟩
  · refine ⟨fun p hp => ?_, fun p hp => ?_, fun p hp hout => ?_, ?_, h.ticks⟩
    · exact h.among p (List.mem_cons_of_mem _ (hperm.mem_iff.2 hp))
    · exact h.atMost p (List.mem_cons_of_mem _ (hperm.mem_iff.2 hp))
    · refine hgone p hp fun hmem => ?_
      rcases hout with hout | hout
      · exact hout (hperm.mem_iff.1 hmem)
      · exact Bool.noConfusion (hidle'.symm.trans hout)
    · simp only [workLeft, hidle', Bool.false_eq_true, if_false]
      rw [← (hperm.map _).sum_eq]
      omega
  · refine ⟨fun p hp => h.among p (hmembers ▸ hp), fun p hp => h.atMost p (hmembers ▸ hp),
      fun p hp _ => hgone p hp ?_, ?_, h.ticks⟩
    · rw [hempty]
      exact List.not_mem_nil
    · rw [hempty, List.map_nil, List.sum_nil] at hleft
      simp only [workLeft, hidle', if_true]
      omega

/-- What an event of the workload leaves to be done. -/
theorem Loaded.step {calls ticks : Nat} {s s' : Kernel × Meter} {e : Event}
    (h : Loaded w k₀ calls ticks s) (hinv : Inv L R safe s.1) (hnodup₀ : k₀.members.Nodup)
    (hstep : WorkStep L safe w s e s') :
    Loaded w k₀ (calls + e.calls) (ticks + e.ticks) s' := by
  obtain ⟨k, m⟩ := s
  obtain ⟨k', m'⟩ := s'
  obtain ⟨⟨hstep, hmeter⟩, hworks⟩ := hstep
  simp only at hmeter
  have hnone : m.charge k 0 = m := by
    unfold Meter.charge
    simp
  cases hstep with
  | @write va byte k' hsafe hw =>
      obtain ⟨i, j, f, hpage⟩ := hinv.writePage hsafe hw
      have hm : m' = m := hmeter.trans hnone
      have hkernel : k' = _ := hpage.kernel
      rw [hm, hkernel]
      exact ⟨h.among, h.atMost, h.done, h.left, h.ticks⟩
  | @trap t out k' ht =>
      cases t with
      | timer frame =>
          obtain ⟨hring, hmore⟩ := hworks
          have hcalls : (Event.trap (.timer frame) out).calls = 1 := if_pos hring
          rw [hmeter, hcalls]
          exact h.tick hinv hnodup₀ ht hmore
      | syscall frame kernelByte =>
          obtain ⟨hnumber, hdone⟩ := hworks
          have hcalls : (Event.trap (.syscall frame kernelByte) out).calls = 1 :=
            if_pos (.inr hnumber)
          have hm : m' = m := hmeter.trans hnone
          rw [hm, hcalls]
          exact h.exit hinv hnumber ht hdone

/-! ## Runs of a workload -/

theorem loaded_start (hidle : k₀.idle = false) (w : Nat → Nat) :
    Loaded w k₀ 0 0 (k₀, Meter.zero) := by
  refine ⟨fun p hp => hp, fun p _ => Nat.zero_le _, fun p hp hout => ?_, ?_, ?_⟩
  · rcases hout with hout | hout
    · exact absurd hp hout
    · exact Bool.noConfusion (hidle.symm.trans hout)
  · simp only [workLeft, hidle, Meter.zero, Nat.sub_zero, Nat.zero_add, Bool.false_eq_true, if_false]
  · simp [Meter.zero]

/-- The invariant and the workload along a run. -/
theorem loaded_run (hinv₀ : Inv L R safe k₀) (hidle : k₀.idle = false) {es : List Event}
    {s : Kernel × Meter} (h : Trace (WorkStep L safe w) (k₀, Meter.zero) es s) :
    Inv L R safe s.1 ∧ Loaded w k₀ (es.map Event.calls).sum (es.map Event.ticks).sum s := by
  induction h with
  | start => exact ⟨hinv₀, loaded_start hidle w⟩
  | next hs ha ih =>
      obtain ⟨hinv, hload⟩ := ih
      have hload' := hload.step hinv hinv₀.members_nodup ha
      rw [List.map_append, List.map_append, List.sum_append, List.sum_append, List.map_singleton,
        List.map_singleton, List.sum_singleton, List.sum_singleton]
      exact ⟨hinv.step ha.metered.step, hload'⟩

/-- As long as the kernel is not idle, a process of the workload goes on. -/
theorem exists_workStep {s : Kernel × Meter} {calls ticks : Nat}
    (h : Loaded w k₀ calls ticks s) (hidle : s.1.idle = false) :
    ∃ e s', e.calls = 1 ∧ WorkStep L safe w s e s' := by
  rcases (h.atMost _ s.1.current_mem).lt_or_eq with hmore | hdone
  · have htrap := trap_timer (L := L) hidle sampleTick
    exact ⟨.trap (.timer sampleTick) _, (_, _), rfl, ⟨.trap htrap, rfl⟩, by decide, hmore⟩
  · have htrap := trap_exit (L := L) (sampleCall 5) (fun _ => none) hidle (by decide) rfl
    exact ⟨.trap (.syscall (sampleCall 5) fun _ => none) _, (_, _), rfl, ⟨.trap htrap, rfl⟩, rfl,
      hdone⟩

/-- Whatever the policy and the quantum, a workload runs to its end and ends with an idle
kernel.  The kernel is idle once every process has had the ticks that it needs and has exited,
and not before. -/
theorem makespan (hboot : kmain L B = some k₀) (w : Nat → Nat) {es : List Event}
    {s : Kernel × Meter}
    (h : Trace (WorkStep L (k₀.store.mem.pfa.exhausted = false) w) (k₀, Meter.zero) es s) :
    (es.map Event.calls).sum ≤ (k₀.members.map fun p => w p + 1).sum ∧
      (s.1.idle = true ↔ (es.map Event.calls).sum = (k₀.members.map fun p => w p + 1).sum) ∧
      (s.1.idle = true → (es.map Event.ticks).sum = (k₀.members.map w).sum ∧
        ∀ p ∈ k₀.members, s.2.ran p = w p) ∧
      (s.1.idle = false → ∃ e s', e.calls = 1 ∧
        WorkStep L (k₀.store.mem.pfa.exhausted = false) w s e s') := by
  obtain ⟨-, hload⟩ := loaded_run (kmain_inv hboot) (kmain_started hboot).idle h
  have hleft := hload.left
  have hticks := hload.ticks
  refine ⟨by omega, ⟨fun hidle => ?_, fun htotal => ?_⟩, fun hidle => ?_, exists_workStep hload⟩
  · simp only [workLeft, hidle, if_true] at hleft
    exact hleft
  · by_contra hne
    rw [Bool.not_eq_true] at hne
    simp only [workLeft, hne, Bool.false_eq_true, if_false, members, List.map_cons,
      List.sum_cons] at hleft htotal
    omega
  · have hran : ∀ p ∈ k₀.members, s.2.ran p = w p := fun p hp => hload.done p hp (.inr hidle)
    refine ⟨?_, hran⟩
    rw [hticks, List.map_congr_left hran]

theorem makespan_one_tick :
    ∃ k₀ k₁ out, kmain sampleLayout (sampleBoot 2 (by decide) .sjf) = some k₀ ∧
      k₀.trap sampleLayout (.timer sampleTick) = some (k₁, out) ∧
      (k₁.idle = true ↔
        ([Event.trap (.timer sampleTick) out].map Event.calls).sum =
          (k₀.members.map fun _ => 1 + 1).sum) := by
  obtain ⟨k₀, hboot, -⟩ := sampleBoot_runs (show 0 < 2 by decide) (by decide) SchedulingPolicy.sjf
  have htrap := trap_timer (L := sampleLayout) (kmain_started hboot).idle sampleTick
  have hstep : WorkStep sampleLayout (k₀.store.mem.pfa.exhausted = false) (fun _ => 1)
      (k₀, Meter.zero) (.trap (.timer sampleTick) _) (_, Meter.zero.charge k₀ 1) :=
    ⟨⟨.trap htrap, rfl⟩, by decide, Nat.zero_lt_one⟩
  exact ⟨k₀, _, _, hboot, htrap, (makespan hboot (fun _ => 1) (Trace.start.next hstep)).2.1⟩

end Accounting

end Kernel

end SoKernel
