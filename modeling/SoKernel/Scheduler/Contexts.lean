import SoKernel.Kernel.Population
import SoKernel.Scheduler.Rotation

/-!
# Saved contexts

A process that is switched out leaves its registers in its control block.  Nothing else
writes there while it waits, whoever runs in between, so it gets them back when it is
switched in.  Timer frames and syscall frames go through different copies; a syscall
return also stores the result of the dispatcher over the saved {lit}`eax`.

Main results:

- Theorem {lit}`Waiting.trap`: a trap keeps the registers of a waiting process or returns to them.
- Theorem {lit}`registers_preserved`: from one switch to the next a process keeps its registers.
-/

namespace SoKernel

/-- A register image with the interrupt flag set. -/
def ProcessContext.resumed (c : ProcessContext) : ProcessContext :=
  { c with eflags := c.eflags ||| 0x200 }

namespace Kernel

/-- Whether the scheduling call that a trap makes switches. -/
def Switches (k : Kernel) : Trap → Prop
  | .timer frame =>
      k.sched.preemptionEnabled = true ∧ frame.common.cs &&& 3 = 3 ∧
        (k.tick.schedulerScheduleFromContext (frameUserToContext frame) true .pit).1 > 0
  | .syscall frame _ =>
      frame.eax = 4 ∧ (k.schedulerScheduleFromContext (ProcessContext.ofWords frame.words) true
          .yield).1 > 0 ∨
        frame.eax = 5 ∧ (k.markTerminated.schedulerScheduleFromContext
          (ProcessContext.ofWords frame.words) false .exit).1 > 0

section Contexts

variable {L : Layout} {R : Nat → Prop} {safe : Prop} {B : BootInfo} {k k₀ k₁ k' : Kernel}
  {p : Nat} {c : ProcessContext}

/-! ## Waiting -/

/-- The process {lit}`p` waits in the queue with the registers {lit}`c`. -/
structure Waiting (p : Nat) (c : ProcessContext) (k : Kernel) : Prop where
  ready : p ∈ k.sched.ready.toList
  context : (k.pcbs p).context = c
  ring : c.cs ≠ 0

/-- A dispatch of a process with saved registers loads them. -/
theorem incoming_context {b : Pcb} (h : b.context.cs ≠ 0) (now : Nat) :
    (incoming b now).context = b.context := by
  unfold incoming
  rw [if_neg h]

/-- A scheduling call keeps the registers of a waiting process or returns them. -/
theorem Waiting.schedule (h : Waiting p c k) (hnodup : k.members.Nodup) (hz : 0 ∉ k.members)
    (context : ProcessContext) (requeue : Bool) (id : StatContext) {code : Int} {k' : Kernel}
    {out : ProcessContext}
    (hrun : k.schedulerScheduleFromContext context requeue id = (code, k', out)) :
    (k'.sched.currentPcb = p → code > 0 ∧ out = c.resumed) ∧
      (k'.sched.currentPcb ≠ p → Waiting p c k') := by
  have hcur : p ≠ k.sched.currentPcb := fun hpc =>
    (List.nodup_cons.1 hnodup).1 (hpc ▸ h.ready)
  have hcases := schedule_cases context requeue id hz
  rw [hrun] at hcases
  cases hcases with
  | sliceLeft hrr hreq hleft =>
      exact ⟨fun heq => absurd heq.symm hcur, fun _ => ⟨h.ready, h.context, h.ring⟩⟩
  | refused hreq hslice hfull =>
      refine ⟨fun heq => absurd heq.symm hcur, fun _ => ⟨h.ready, ?_, h.ring⟩⟩
      rw [stayed_pcbs, if_neg hcur]
      exact h.context
  | alone hreq hempty =>
      refine ⟨fun heq => absurd heq.symm hcur, fun _ => ⟨h.ready, ?_, h.ring⟩⟩
      rw [stayed_pcbs, if_neg hcur]
      exact h.context
  | @switch next ready hslice hroom hperm hfifo =>
      have hsaved : (k.saved context requeue).pcbs p = k.pcbs p := by
        simp [saved, Function.update_of_ne hcur]
      constructor
      · intro heq
        change next = p at heq
        subst heq
        have hctx : (incoming ((k.saved context requeue).pcbs next) k.pitTicks).context = c := by
          rw [hsaved, incoming_context (by rw [h.context]; exact h.ring), h.context]
        refine ⟨by decide, ?_⟩
        simp only [ProcessContext.resumed, hctx]
      · intro hne
        change next ≠ p at hne
        have hmem : p ∈ k.candidates requeue := List.mem_append_left _ h.ready
        refine ⟨?_, ?_, h.ring⟩
        · exact (List.mem_cons.1 (hperm.mem_iff.1 hmem)).resolve_left (Ne.symm hne)
        · rw [switched_pcbs, if_neg (Ne.symm hne), if_neg hcur]
          exact h.context

/-- A scheduling call that switches away from a process leaves it waiting with its
registers, or returns to it at once. -/
theorem waiting_of_switch (hz : 0 ∉ k.members) (hring : c.cs ≠ 0) (id : StatContext) {code : Int}
    {k' : Kernel} {out : ProcessContext}
    (hrun : k.schedulerScheduleFromContext c true id = (code, k', out)) (hcode : code > 0) :
    (k'.sched.currentPcb = k.sched.currentPcb → out = c.resumed) ∧
      (k'.sched.currentPcb ≠ k.sched.currentPcb → Waiting k.sched.currentPcb c k') := by
  have hcases := schedule_cases c true id hz
  rw [hrun] at hcases
  cases hcases with
  | sliceLeft hrr hreq hleft => cases hcode
  | refused hreq hslice hfull => cases hcode
  | alone hreq hempty => cases hreq
  | @switch next ready hslice hroom hperm hfifo =>
      have hsaved : ((k.saved c true).pcbs k.sched.currentPcb).context = c := by
        simp [saved]
      constructor
      · intro heq
        change next = k.sched.currentPcb at heq
        have hctx : (incoming ((k.saved c true).pcbs next) k.pitTicks).context = c := by
          rw [heq, incoming_context (by rw [hsaved]; exact hring), hsaved]
        simp only [ProcessContext.resumed, hctx]
      · intro hne
        change next ≠ k.sched.currentPcb at hne
        have hmem : k.sched.currentPcb ∈ k.candidates true := by
          simp [candidates]
        refine ⟨?_, ?_, hring⟩
        · exact (List.mem_cons.1 (hperm.mem_iff.1 hmem)).resolve_left (Ne.symm hne)
        · rw [switched_pcbs, if_neg (Ne.symm hne), if_pos rfl]
          simp

/-- A scheduling call that does not switch returns the image it was given. -/
theorem schedule_same_image (hz : 0 ∉ k.members) {requeue : Bool} {id : StatContext} {code : Int}
    {out : ProcessContext} (hrun : k.schedulerScheduleFromContext c requeue id = (code, k', out))
    (hcode : ¬ code > 0) : out = c := by
  have hcases := schedule_cases c requeue id hz
  rw [hrun] at hcases
  cases hcases with
  | sliceLeft hrr hreq hleft => rfl
  | refused hreq hslice hfull => rfl
  | alone hreq hempty => rfl
  | switch hslice hroom hperm hfifo => exact absurd (by decide) hcode

/-! ## Traps -/

/-- Waiting depends on the queue and on one control block. -/
theorem Waiting.congr (h : Waiting p c k) (hready : p ∈ k'.sched.ready.toList)
    (hpcb : k'.pcbs p = k.pcbs p) : Waiting p c k' :=
  ⟨hready, by rw [hpcb]; exact h.context, h.ring⟩

/-- A trap keeps the registers of a waiting process, or returns to them when it makes the
process current. -/
theorem Waiting.trap (h : Waiting p c k) (hinv : Inv L R safe k) {t : Trap} {out : ProcessContext}
    (ht : k.trap L t = some (k', out)) :
    (k'.sched.currentPcb = p → out = c.resumed) ∧
      (k'.sched.currentPcb ≠ p → Waiting p c k') := by
  have hnodup := hinv.members_nodup
  have hz := hinv.zero_notMem
  have hcur : p ≠ k.sched.currentPcb := fun hpc => (List.nodup_cons.1 hnodup).1 (hpc ▸ h.ready)
  have hholder : p ∈ k.holders := mem_holders (List.mem_cons_of_mem _ h.ready)
  -- A call after which the same process runs only has to leave the queue and the block.
  have hstay : k'.sched.currentPcb = k.sched.currentPcb → p ∈ k'.sched.ready.toList →
      k'.pcbs p = k.pcbs p → (k'.sched.currentPcb = p → out = c.resumed) ∧
        (k'.sched.currentPcb ≠ p → Waiting p c k') := by
    intro hsame hready hpcb
    exact ⟨fun heq => absurd (heq.symm.trans hsame) hcur, fun _ => h.congr hready hpcb⟩
  obtain ⟨-, hcase⟩ := trap_cases ht
  cases hcase with
  | quiet hquiet => exact hstay rfl h.ready rfl
  | @timer frame code k' context henabled hring hrun =>
      have htick : Waiting p c k.tick := ⟨h.ready, h.context, h.ring⟩
      obtain ⟨hin, hout⟩ := htick.schedule hnodup hz (frameUserToContext frame) true .pit hrun
      refine ⟨fun heq => ?_, hout⟩
      rw [if_pos (hin heq).1]
      exact (hin heq).2
  | plain hring hnumber => exact hstay rfl h.ready rfl
  | @exec frame frame' kernelByte r k' hring hnumber hrun =>
      rcases sysExec_cases hrun with heq | ⟨path, a, b, -, -, heq⟩
      · cases heq
        exact hstay rfl h.ready rfl
      · have hspec := execModule_spec hinv frame a b
        rw [← heq] at hspec
        cases hspec with
        | failed inv aside short =>
            have hready : k'.sched.ready = k.sched.ready := by rw [aside.sched]
            exact hstay (by rw [aside.sched]) (hready ▸ h.ready) (aside.pcbs p hholder)
        | done inv executed =>
            exact hstay (by rw [executed.sched]) (executed.sched ▸ h.ready)
              (executed.others p hcur)
  | @fork frame kernelByte r k' hring hnumber hrun =>
      have hspec := sysFork_spec hinv frame
      rw [hrun] at hspec
      cases hspec with
      | failed inv aside short =>
          have hready : k'.sched.ready = k.sched.ready := by rw [aside.sched]
          exact hstay (by rw [aside.sched]) (hready ▸ h.ready) (aside.pcbs p hholder)
      | forked inv forked =>
          refine hstay (by rw [forked.sched]) ?_ (forked.others p hholder)
          rw [forked.ready]
          exact List.mem_append_left _ h.ready
  | @yield frame frame' kernelByte r k' hring hnumber hrun =>
      obtain ⟨code, k₂, context, hsched, hyield⟩ := sysYield_eq hz hinv.holding.cr3 frame
      obtain ⟨hin, hout⟩ := h.schedule hnodup hz (ProcessContext.ofWords frame.words) true .yield
        hsched
      rw [hrun, Prod.mk.injEq, Prod.mk.injEq] at hyield
      obtain ⟨rfl, rfl, rfl⟩ := hyield
      rw [returned_ofWords]
      exact ⟨fun heq => (hin heq).2, hout⟩
  | @exit frame frame' kernelByte r k' hring hnumber hrun =>
      have hmark : Waiting p c k.markTerminated := by
        refine h.congr h.ready ?_
        rw [markTerminated_pcbs, if_neg hcur]
      obtain ⟨code, k₂, context, hsched⟩ : ∃ code k₂ context,
          k.markTerminated.schedulerScheduleFromContext (ProcessContext.ofWords frame.words) false
            .exit = (code, k₂, context) := ⟨_, _, _, rfl⟩
      obtain ⟨hin, hout⟩ := hmark.schedule hnodup hz _ false .exit hsched
      rw [sysExit_eq hinv.current_ne hsched, Prod.mk.injEq, Prod.mk.injEq] at hrun
      obtain ⟨rfl, rfl, rfl⟩ := hrun
      rw [returned_ofWords]
      split
      · exact ⟨fun heq => (hin heq).2, fun hne => (hout hne).congr (hout hne).ready rfl⟩
      · exact ⟨fun heq => (hin heq).2, fun hne => (hout hne).congr (hout hne).ready rfl⟩

/-! ## Runs -/

/-- The states of the runs from {lit}`k₁` in which {lit}`p` is never current; {lit}`k₀` is the
state after boot. -/
inductive RunsWithout (L : Layout) (k₀ : Kernel) (p : Nat) (k₁ : Kernel) : Kernel → Prop
  | start (hne : k₁.sched.currentPcb ≠ p) : RunsWithout L k₀ p k₁ k₁
  | trap {k k' : Kernel} {t : Trap} {out : ProcessContext} (hk : RunsWithout L k₀ p k₁ k)
      (ht : k.trap L t = some (k', out)) (hne : k'.sched.currentPcb ≠ p) :
      RunsWithout L k₀ p k₁ k'
  | write {k k' : Kernel} {va : Nat} {byte : UInt8} (hk : RunsWithout L k₀ p k₁ k)
      (hsafe : k₀.store.mem.pfa.exhausted = false) (hw : k.userWrite va byte = some k') :
      RunsWithout L k₀ p k₁ k'

theorem RunsWithout.reachable (h : RunsWithout L k₀ p k₁ k) (hk₁ : Reachable L k₀ k₁) :
    Reachable L k₀ k := by
  induction h with
  | start hne => exact hk₁
  | trap hk ht hne ih => exact .trap ih ht
  | write hk hsafe hw ih => exact .write ih hsafe hw

/-- A waiting process waits with its registers until it becomes current. -/
theorem RunsWithout.waiting (h : RunsWithout L k₀ p k₁ k)
    (hinv₀ : Inv L R (k₀.store.mem.pfa.exhausted = false) k₀) (hk₁ : Reachable L k₀ k₁)
    (hwait : k₁.sched.currentPcb ≠ p → Waiting p c k₁) : Waiting p c k := by
  induction h with
  | start hne => exact hwait hne
  | trap hk ht hne ih => exact (ih.trap (hinv₀.reachable (hk.reachable hk₁)) ht).2 hne
  | write hk hsafe hw ih =>
      obtain ⟨i, j, f, hpage⟩ := (hinv₀.reachable (hk.reachable hk₁)).writePage hsafe hw
      rw [hpage.kernel]
      exact ih.congr ih.ready rfl

end Contexts

end Kernel

/-- A timer interrupt or a call of {lit}`sys_yield`. -/
def Trap.Requeues : Trap → Prop
  | .timer _ => True
  | .syscall frame _ => frame.eax = 4

namespace Kernel

section Contexts

variable {L : Layout} {R : Nat → Prop} {safe : Prop} {B : BootInfo} {k k₀ k₁ : Kernel}

/-- What a timer interrupt or a yield does with the registers of the interrupted process. -/
theorem Inv.requeued (hinv : Inv L R safe k) {t : Trap} {out : ProcessContext}
    (ht : k.trap L t = some (k₁, out)) (hrequeue : t.Requeues) :
    (¬ k.Switches t → out = t.image) ∧
      (k.Switches t →
        (k₁.sched.currentPcb = k.sched.currentPcb → out = t.image.resumed) ∧
          (k₁.sched.currentPcb ≠ k.sched.currentPcb →
            Waiting k.sched.currentPcb t.image k₁)) := by
  have hz := hinv.zero_notMem
  obtain ⟨-, hcase⟩ := trap_cases ht
  cases hcase with
  | quiet hquiet =>
      exact ⟨fun _ => rfl, fun hswitch => absurd ⟨hswitch.1, hswitch.2.1⟩ hquiet⟩
  | @timer frame code k₁ context henabled hring hrun =>
      have hcode : k.Switches (.timer frame) ↔ code > 0 := by
        simp only [Switches, henabled, hring, hrun, true_and]
      have hcs : (frameUserToContext frame).cs ≠ 0 := by
        intro hzero
        change frame.common.cs = 0 at hzero
        rw [hzero] at hring
        cases hring
      rw [hcode]
      refine ⟨fun hno => if_neg hno, fun hyes => ?_⟩
      rw [if_pos hyes]
      exact waiting_of_switch (k := k.tick) hz hcs .pit hrun hyes
  | plain hring hnumber => exact absurd (by rw [show _ = 4 from hrequeue]; simp) hnumber
  | exec hring hnumber hrun => exact absurd (hnumber.symm.trans hrequeue) (by decide)
  | fork hring hnumber hrun => exact absurd (hnumber.symm.trans hrequeue) (by decide)
  | exit hring hnumber hrun => exact absurd (hnumber.symm.trans hrequeue) (by decide)
  | @yield frame frame' kernelByte r k₁ hring hnumber hrun =>
      obtain ⟨code, k₂, context, hsched, hyield⟩ := sysYield_eq hz hinv.holding.cr3 frame
      rw [hrun, Prod.mk.injEq, Prod.mk.injEq] at hyield
      obtain ⟨rfl, rfl, rfl⟩ := hyield
      have hcode : k.Switches (.syscall frame kernelByte) ↔ code > 0 := by
        simp [Switches, hnumber, hsched]
      have hcs : (ProcessContext.ofWords frame.words).cs ≠ 0 := by
        intro hzero
        change frame.cs = 0 at hzero
        rw [hzero] at hring
        cases hring
      rw [hcode, returned_ofWords]
      refine ⟨fun hno => schedule_same_image hz hsched hno, fun hyes => ?_⟩
      exact waiting_of_switch hz hcs .yield hsched hyes

/-- Context switches preserve registers: a process that a timer interrupt or a yield
switches out is returned to with its registers, whoever runs in between, and a call that
does not switch returns to the interrupted registers. -/
theorem registers_preserved (hboot : kmain L B = some k₀) (hk : Reachable L k₀ k) {t : Trap}
    {out : ProcessContext} (ht : k.trap L t = some (k₁, out)) (hrequeue : t.Requeues) :
    (¬ k.Switches t → out = t.image) ∧
      (k.Switches t →
        (k₁.sched.currentPcb = k.sched.currentPcb → out = t.image.resumed) ∧
          ∀ k₂ t₂ k₃ out₃, RunsWithout L k₀ k.sched.currentPcb k₁ k₂ →
            k₂.trap L t₂ = some (k₃, out₃) → k₃.sched.currentPcb = k.sched.currentPcb →
              out₃ = t.image.resumed) := by
  have hinv₀ := kmain_inv hboot
  obtain ⟨hno, hyes⟩ := (hinv₀.reachable hk).requeued ht hrequeue
  refine ⟨hno, fun hswitch => ⟨(hyes hswitch).1, ?_⟩⟩
  intro k₂ t₂ k₃ out₃ hwithout ht₂ hback
  have hk₁ : Reachable L k₀ k₁ := .trap hk ht
  have hwait := hwithout.waiting hinv₀ hk₁ (hyes hswitch).2
  exact (hwait.trap (hinv₀.reachable (hwithout.reachable hk₁)) ht₂).1 hback

theorem registers_preserved_two_ticks :
    ∃ k₀ k₁ k₂ out₁ out₂, kmain sampleLayout (sampleBoot 2 (by decide) .fcfs) = some k₀ ∧
      k₀.trap sampleLayout (.timer sampleTick) = some (k₁, out₁) ∧
      k₁.sched.currentPcb ≠ k₀.sched.currentPcb ∧
      k₁.trap sampleLayout (.timer sampleTick) = some (k₂, out₂) ∧
      out₂ = (Trap.timer sampleTick).image.resumed := by
  obtain ⟨k₀, hboot, -, hlen, -⟩ :=
    sampleBoot_runs (show 0 < 2 by decide) (by decide) SchedulingPolicy.fcfs
  have hinv := kmain_inv hboot
  have hstarted := kmain_started hboot
  have htrap₁ := trap_timer (L := sampleLayout) hstarted.idle sampleTick
  have hinv₁ := hinv.trap htrap₁
  -- Two ticks rotate two processes twice.
  obtain ⟨first, second, hpair⟩ := List.length_eq_two.1 hlen
  have hcount : k₀.sched.ready.len = 1 := by
    rw [members, List.length_cons, RingBuffer.length_toList] at hlen
    omega
  obtain ⟨hcode, hmembers₁, ⟨hon₁, hpol₁, -⟩, -⟩ := tick_rotates (k := k₀) sampleTick
    (by rw [hstarted.policy]; decide) (by rw [hstarted.policy]; rintro ⟨hrr, -⟩; cases hrr)
    hstarted.preemption (by decide) hinv.zero_notMem (by rw [hcount]; decide)
  have hidle₁ : (k₀.timerInterruptHandler sampleTick).1.idle = false := by
    have hr := hinv.tick.rescheduled (frameUserToContext sampleTick) true .pit
    simp only [timerInterruptHandler]
    rw [if_pos ⟨hstarted.preemption, by decide⟩]
    exact hr.idle.trans hstarted.idle
  have htrap₂ := trap_timer (L := sampleLayout) hidle₁ sampleTick
  generalize hr₁ : k₀.timerInterruptHandler sampleTick = r₁ at *
  rw [hpair] at hmembers₁
  have hready₁ := (List.cons.inj hmembers₁).2
  have hcount₁ : r₁.1.sched.ready.len = 1 := by
    rw [← RingBuffer.length_toList, hready₁]
    rfl
  obtain ⟨-, hmembers₂, -⟩ := tick_rotates (k := r₁.1) sampleTick
    (by rw [hpol₁, hstarted.policy]; decide)
    (by rw [hpol₁, hstarted.policy]; rintro ⟨hrr, -⟩; cases hrr)
    (hon₁.trans hstarted.preemption) (by decide) hinv₁.zero_notMem (by rw [hcount₁]; decide)
  rw [hmembers₁] at hmembers₂
  have hcur₀ : k₀.sched.currentPcb = first := (List.cons.inj hpair).1
  have hcur₁ : r₁.1.sched.currentPcb = second := (List.cons.inj hmembers₁).1
  have hcur₂ : (r₁.1.timerInterruptHandler sampleTick).1.sched.currentPcb = first :=
    (List.cons.inj hmembers₂).1
  have hne : second ≠ first := by
    have hnodup := hinv.members_nodup
    rw [hpair] at hnodup
    simp only [List.nodup_cons, List.mem_singleton] at hnodup
    exact Ne.symm hnodup.1
  have hne₁ : r₁.1.sched.currentPcb ≠ k₀.sched.currentPcb := by
    rw [hcur₁, hcur₀]
    exact hne
  have hswitch : k₀.Switches (.timer sampleTick) :=
    ⟨hstarted.preemption, by decide, by rw [hcode]; decide⟩
  refine ⟨k₀, r₁.1, _, _, _, hboot, htrap₁, hne₁, htrap₂, ?_⟩
  exact ((registers_preserved hboot .boot htrap₁ trivial).2 hswitch).2 _ _ _ _ (.start hne₁) htrap₂
    (hcur₂.trans hcur₀.symm)

end Contexts

end Kernel

end SoKernel
