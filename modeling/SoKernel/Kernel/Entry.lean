import SoKernel.Interrupts.Controllers
import SoKernel.Kernel.Privilege
import SoKernel.Segment.Tables

/-!
# The processor under the running kernel

This module puts the state of the kernel and the descriptor tables together: the processor as
the tables and the task state segment of a reachable state configure it.

Main results:

- Theorem {lit}`entries_use_own_stack`: in every reachable state an interrupt from ring 3 enters on
  a kernel stack that belongs to the running process only.
- Theorem {lit}`interrupts_enter`: every interrupt that the interrupt controllers deliver has a gate.
- Theorem {lit}`user_code_confined`: what the processor allows to the process that a trap of a run
  has returned to.
-/

namespace SoKernel

namespace Kernel

/-- The processor while the kernel is in a state: {lit}`tss_init`, and the stack of the last
switch. -/
def processor (k : Kernel) (L : Layout) (A : Addresses) (other : Nat → Nat) : Processor :=
  kernelProcessor A other (tssSetKernelStack (tssInit 0x10 L.kernelStackTop) k.tssEsp0)

/-- The kernel stacks of the processes that the scheduler knows start at the last word of their
blocks. -/
def StacksSet (k : Kernel) : Prop :=
  ∀ p ∈ k.members, (k.pcbs p).kernelEsp0 = u32 ((k.pcbs p).kernelStackBase + 4096 - 4)

/-- The kernel stack of the running process is a live block at {lit}`base`, apart from all other
live blocks, and on mapped pages of the kernel. -/
structure RunningStack (k : Kernel) (base : Nat) : Prop where
  own : k.current.kernelStackBase = base
  live : (base, kernelStackSize) ∈ k.store.heap.live
  apart : ∀ b ∈ k.store.heap.live, b ≠ (base, kernelStackSize) →
    b.1 + b.2 ≤ base ∨ base + kernelStackSize ≤ b.1
  mapped : ∀ va, base ≤ va → va < base + kernelStackSize → 0xC0000000 ≤ va ∧ va < 0xC03FF000 ∧
    ∃ f, k.store.mem.pfa.used f = true ∧ k.store.mem.kernelPageTable (pageIndex va) = 4096 * f + 3

/-- What the processor allows in ring 3 after the return to an image. -/
structure Confines (P : Processor) (out : ProcessContext) : Prop where
  returns : out.eip < 2 ^ 32 → P.ReturnsTo out.cs out.eip out.userSs
  ring : out.cs % 4 = 3
  interruptible : bitField out.eflags 9 1 = 1
  ports : ∀ port width, ¬ P.AccessesPorts 3 (bitField out.eflags 12 2) port width
  segments : ∀ selector, P.LoadsData 3 selector ↔ selector / 4 ∈ [0, 6, 8]
  jumps : ∀ selector, P.JumpsTo 3 selector ↔ selector / 4 = 6
  calls : ∀ vector, (∃ e, P.enter 3 true vector = .ok e) ↔ vector = 128
  faults : ∀ vector < 32, P.exception 3 vector = none

section Entry

variable {L : Layout} {R : Nat → Prop} {safe : Prop} {B : BootInfo} {k k₀ k' : Kernel}
  {c out : ProcessContext}

/-! ## Kernel stacks -/

theorem StacksSet.rescheduled (h : StacksSet k) (hr : Rescheduled k k')
    (hmembers : ∀ p ∈ k'.members, p ∈ k.members) : StacksSet k' := by
  intro p hp
  obtain ⟨-, hbase, hesp⟩ := hr.pcbs p
  rw [hbase, hesp]
  exact h p (hmembers p hp)

/-- A scheduling call keeps the kernel stacks set. -/
theorem StacksSet.schedule (h : StacksSet k) (hz : 0 ∉ k.members)
    (hcr3 : k.store.mem.cr3 = k.current.pdt) {requeue : Bool} {id : StatContext} {code : Int}
    (hrun : k.schedulerScheduleFromContext c requeue id = (code, k', out)) : StacksSet k' := by
  obtain ⟨code', k'', out', hspec, hr, hcases⟩ := schedule_spec hz hcr3 c requeue id
  rw [hrun, Prod.mk.injEq, Prod.mk.injEq] at hspec
  obtain ⟨rfl, rfl, rfl⟩ := hspec
  refine h.rescheduled hr fun p hp => ?_
  rcases hcases with ⟨-, -, -, hmembers, -⟩ | ⟨-, -, -, hperm⟩
  · rw [hmembers] at hp
    exact hp
  · rcases List.mem_append.1 (hperm.mem_iff.2 hp) with hp | hp
    · exact List.mem_cons_of_mem _ hp
    · cases requeue with
      | false => cases hp
      | true =>
          rw [List.mem_singleton.1 hp]
          exact k.current_mem

/-- A trap keeps the kernel stacks set. -/
theorem StacksSet.trap (h : StacksSet k) (hinv : Inv L R safe k) {t : Trap}
    (ht : k.trap L t = some (k', out)) : StacksSet k' := by
  obtain ⟨-, hserved⟩ := hinv.served ht
  cases hserved with
  | quiet hquiet => exact h
  | requeued call hrun =>
      cases call with
      | timer henabled hring =>
          exact StacksSet.schedule (k := k.tick) h hinv.zero_notMem hinv.holding.cr3 hrun
      | yield hring hnumber => exact h.schedule hinv.zero_notMem hinv.holding.cr3 hrun
  | kept hring hnumber => exact h
  | gaveUp hring hnumber aside counter log =>
      intro p hp
      rw [aside.members] at hp
      rw [aside.pcbs p (mem_holders hp)]
      exact h p hp
  | executed hring hnumber executed log =>
      intro p hp
      have hmembers : k'.members = k.members := by
        unfold members
        rw [executed.sched]
      rw [hmembers] at hp
      by_cases hpc : p = k.sched.currentPcb
      · have hpcb := executed.pcb
        unfold current at hpcb
        rw [executed.sched] at hpcb
        rw [hpc, hpcb]
        exact h _ k.current_mem
      · rw [executed.others p hpc]
        exact h p hp
  | forked hring hnumber forked log =>
      intro p hp
      rw [forked.members] at hp
      rcases List.mem_append.1 hp with hp | hp
      · rw [forked.others p (mem_holders hp)]
        exact h p hp
      · rw [List.mem_singleton.1 hp, forked.pcb]
        rfl
  | @left frame kernelByte code k₂ out hring hnumber hrun =>
      have hr := rescheduled_markTerminated k
      have hcr3 : k.store.mem.cr3 = k.markTerminated.current.pdt := by
        rw [hinv.holding.cr3]
        exact (hr.pcbs _).1.symm
      have hafter : StacksSet k₂ :=
        (h.rescheduled hr fun p hp => hp).schedule hinv.zero_notMem hcr3 hrun
      split
      · exact hafter
      · exact hafter

/-- The kernel stacks of boot are set. -/
theorem stacksSet_start (hboot : kmain L B = some k₀) : StacksSet k₀ := by
  intro p hp
  obtain ⟨pid, d, base, hpcb⟩ := members_madeByBoot hboot p hp
  rw [hpcb]
  rfl

theorem StacksSet.reachable (hboot : kmain L B = some k₀) (hk : Reachable L k₀ k) :
    StacksSet k := by
  induction hk with
  | boot => exact stacksSet_start hboot
  | trap hk ht ih => exact ih.trap ((kmain_inv hboot).reachable hk) ht
  | write hk hsafe hw ih =>
      obtain ⟨i, j, f, hpage⟩ := ((kmain_inv hboot).reachable hk).writePage hsafe hw
      rw [hpage.kernel]
      exact ih

/-- The kernel stack of the running process. -/
theorem Inv.runningStack (h : Inv L R safe k) :
    k.RunningStack k.current.kernelStackBase := by
  obtain ⟨-, hlive⟩ := h.live (mem_holders k.current_mem)
  obtain ⟨ts, hready⟩ := h.holding.store.heap
  have hok := hready.ok_of_live hlive
  obtain ⟨t, ht, hto, hbt⟩ := hok.exists_tile hlive
  have hbounds := hok.shape.tiled.bounds ht
  have hroom := hok.room t ht _ hto
  have hbt' : k.current.kernelStackBase = t.addr + 8 := hbt
  simp only at hroom
  refine ⟨rfl, hlive, fun b hb hne => ?_, fun va hlo hhi => ?_⟩
  · obtain ⟨u, hu, huo, hbu⟩ := hok.exists_tile hb
    have hroomu := hok.room u hu _ huo
    have haddr : u.addr ≠ t.addr := by
      intro heq
      have hut := hok.shape.tiled.eq_of_addr_eq hu ht heq
      rw [hut] at huo hbu
      refine hne (Prod.ext (hbu.trans hbt'.symm) ?_)
      exact Option.some.inj (huo.symm.trans hto)
    rcases hok.shape.tiled.apart hu ht haddr with hbelow | habove
    · left
      omega
    · right
      omega
  · have hstart := L.heapStart_bounds
    have hbase := L.image_lo
    have htop := hok.shape.top
    have haligned := hok.aligned
    have hpage : pageIndex L.heapStart ≤ pageIndex va ∧
        pageIndex va < pageIndex k.store.heap.heapCurrent := by
      simp only [pageIndex]
      omega
    exact ⟨by omega, by omega, hok.mapped _ hpage.1 hpage.2⟩

/-! ## Entries and returns -/

/-- Addresses for the handlers and the task state segment. -/
def sampleAddresses : Addresses where
  interruptHandler32 := 0xC0100000
  interruptHandler33 := 0xC0100040
  interruptHandler39 := 0xC0100080
  interruptHandler47 := 0xC01000C0
  syscallHandler128 := 0xC0100100
  tss := 0xC0101000
  handlers_lt := by norm_num
  tss_lt := by norm_num [sizeofTss]

/-- In every reachable state, an interrupt from ring 3 with a handler enters it in ring 0, with
interrupts off, and on the kernel stack of the running process, which lies in a live block of its
own and on mapped pages. -/
theorem entries_use_own_stack (hboot : kmain L B = some k₀) (hk : Reachable L k₀ k)
    (A : Addresses) (other : Nat → Nat) {vector : Nat} (hvector : vector ∈ handled)
    {software : Bool} (hsoftware : software = true → vector = 128) :
    ∃ handler base, handlerOf A vector = some (handler, if vector = 128 then 0xEE else 0x8E) ∧
      k.RunningStack base ∧
      (k.processor L A other).enter 3 software vector =
        .ok ⟨8, handler, some (0x10, base + 4092), true⟩ := by
  have hinv := (kmain_inv hboot).reachable hk
  have hstack := hinv.runningStack
  obtain ⟨handler, hhandler⟩ := handlerOf_some A hvector
  refine ⟨handler, _, hhandler, hstack, ?_⟩
  have hesp : k.tssEsp0 = k.current.kernelStackBase + 4092 := by
    obtain ⟨-, htop, -⟩ := hstack.mapped (k.current.kernelStackBase + 4095) (by omega)
      (by rw [kernelStackSize]; omega)
    have hset : k.current.kernelEsp0 = u32 (k.current.kernelStackBase + 4096 - 4) :=
      StacksSet.reachable hboot hk _ k.current_mem
    rw [hinv.tss, hset, Heap.u32_of_lt (by omega)]
    omega
  have henter : (k.processor L A other).enter 3 software vector =
      .ok ⟨8, handler, if 3 = 0 then none else some (0x10, k.tssEsp0), true⟩ :=
    enter_handler A other rfl hhandler fun hs => .inr ⟨hsoftware hs, le_rfl⟩
  rw [if_neg (by norm_num)] at henter
  rw [← hesp]
  exact henter

theorem entries_use_own_stack_sample_run :
    ∃ k₀ k₁ k₂ k₃ k₄ k₅ out₁ out₃ out₄ out₅ p q child base,
      kmain sampleLayout (sampleBoot 2 (by decide) .fcfs) = some k₀ ∧
      SampleRun k₀ k₁ k₂ k₃ k₄ k₅ out₁ out₃ out₄ out₅ p q child ∧ k₅.RunningStack base ∧
      (k₅.processor sampleLayout sampleAddresses fun _ => 0).enter 3 false 32 =
        .ok ⟨8, 0xC0100000, some (0x10, base + 4092), true⟩ := by
  obtain ⟨k₀, k₁, k₂, k₃, k₄, k₅, out₁, out₃, out₄, out₅, p, q, child, hboot, hplenty, hrun⟩ :=
    sampleRun_exists
  obtain ⟨handler, base, hhandler, hstack, henter⟩ := entries_use_own_stack hboot
    (hrun.reachable hplenty) sampleAddresses (fun _ => 0) (by decide : 32 ∈ handled)
    fun hsoftware : false = true => absurd hsoftware Bool.false_ne_true
  obtain rfl : handler = 0xC0100000 := by
    cases hhandler
    rfl
  exact ⟨k₀, k₁, k₂, k₃, k₄, k₅, out₁, out₃, out₄, out₅, p, q, child, base, hboot, hrun, hstack,
    henter⟩

/-- Every interrupt that the interrupt controllers deliver has a gate: it enters its handler in
ring 0, with interrupts off, in whatever ring and state of the kernel it comes.  Of the other
vectors two have a gate as well, and no more. -/
theorem interrupts_enter {p₀ p : Pics} (hboot : Pics.device.Run (p₀, outs initIdtPics) (p, []))
    {es : List IrqEvent} {s : Irqs} (h : Trace IrqStep ⟨p, none⟩ es s) (k : Kernel) (L : Layout)
    (A : Addresses) (other : Nat → Nat) (cpl : Nat) :
    (∀ vector, .accept vector ∈ es → ∃ handler, handlerOf A vector = some (handler, 0x8E) ∧
      (k.processor L A other).enter cpl false vector =
        .ok ⟨8, handler, if cpl = 0 then none else some (0x10, k.tssEsp0), true⟩) ∧
    ∀ vector, (∃ e, (k.processor L A other).enter cpl false vector = .ok e) ↔
      vector ∈ comingVectors ∨ vector = 47 ∨ vector = 128 := by
  refine ⟨fun vector hvector => ?_, fun vector => ?_⟩
  · have hclosed : ∀ v ∈ comingVectors, v ∈ handled ∧ v ≠ 128 := by decide
    obtain ⟨hhandled, hne⟩ := hclosed _ ((served_run hboot h).2 _ hvector)
    obtain ⟨handler, hhandler⟩ := handlerOf_some A hhandled
    rw [if_neg hne] at hhandler
    exact ⟨handler, hhandler,
      enter_handler A other rfl hhandler fun hs => absurd hs Bool.false_ne_true⟩
  · apply (enter_external_iff A other rfl cpl).trans
    simp only [handled, comingVectors, List.mem_cons, List.not_mem_nil, or_false, or_assoc]

/-- A tick, from controllers that have just been reset, in a kernel after boot. -/
theorem interrupts_enter_tick :
    ∃ p s vector k₀ handler, Pics.device.Run (servingPics noLines, outs initIdtPics) (p, []) ∧
      Trace IrqStep ⟨p, none⟩ [.line, .accept vector] s ∧
      kmain sampleLayout (sampleBoot 2 (by decide) .fcfs) = some k₀ ∧
      (k₀.processor sampleLayout sampleAddresses fun _ => 0).enter 3 false vector =
        .ok ⟨8, handler, some (0x10, k₀.tssEsp0), true⟩ := by
  obtain ⟨p, hboot⟩ := Device.Run.exists_outs Pics.device initIdtPics (servingPics noLines)
  obtain ⟨k₀, hkmain, -⟩ := sampleBoot_runs (show 0 < 2 by decide) (by decide) SchedulingPolicy.fcfs
  have htrace := (Trace.start.next (IrqStep.line none (Pics.Move.master p 0 true))).next
    (IrqStep.accept rfl)
  obtain ⟨handler, -, henter⟩ := (interrupts_enter hboot htrace k₀ sampleLayout sampleAddresses
    (fun _ => 0) 3).1 _ (List.mem_append_right _ List.mem_cons_self)
  rw [if_neg (by norm_num)] at henter
  exact ⟨p, _, _, k₀, handler, hboot, htrace, hkmain, henter⟩

/-- The flags of user mode: interrupts on, and I/O privilege level 0. -/
theorem userMode_levels (h : out.UserMode) :
    bitField out.eflags 9 1 = 1 ∧ bitField out.eflags 12 2 = 0 := by
  have hfield : ∀ lo n, bitField out.eflags lo n = (out.eflags >>> lo) &&& (2 ^ n - 1) := by
    intro lo n
    rw [Nat.and_two_pow_sub_one_eq_mod, Nat.shiftRight_eq_div_pow]
    rfl
  have hflags := h.flags
  have hlow : (out.eflags >>> 9) &&& 0x19 = 1 := by
    have hshift := congrArg (· >>> 9) hflags
    simp only [Nat.shiftRight_and_distrib] at hshift
    exact hshift
  have hhigh : (out.eflags >>> 12) &&& 3 = 0 := by
    have hshift := congrArg (· >>> 12) hflags
    simp only [Nat.shiftRight_and_distrib] at hshift
    exact hshift
  refine ⟨?_, ?_⟩
  · rw [hfield]
    have hand := congrArg (· &&& 1) hlow
    simp only [Nat.and_assoc] at hand
    exact hand
  · rw [hfield]
    exact hhigh

/-- The processor keeps an image of user mode in ring 3. -/
theorem confines_of_userMode (h : out.UserMode) (k : Kernel) (L : Layout) (A : Addresses)
    (other : Nat → Nat) : Confines (k.processor L A other) out := by
  obtain ⟨hinterrupts, hlevel⟩ := userMode_levels h
  refine ⟨fun heip => ?_, ?_, hinterrupts, fun port width => ?_, fun selector => ?_,
    fun selector => ?_, fun vector => ?_, fun vector hvector => ?_⟩
  · rw [h.cs, h.ss]
    exact (returnsTo_iff A other).2 ⟨rfl, rfl, heip⟩
  · rw [h.cs]
  · rw [hlevel]
    exact no_ports A other rfl (by norm_num) port width
  · exact loadsData_iff A other
  · exact jumpsTo_iff A other
  · exact enter_int_iff A other rfl
  · exact exception_none A other hvector 3

/-- Along every run whose traps come from user mode, the processor can return to the image that a
trap leaves, and keeps it in ring 3 from there: it opens no port, no segment of the kernel and no
vector but the one of the system calls, and an exception stops it. -/
theorem user_code_confined (hboot : kmain L B = some k₀) {es : List Event} (h : Runs L k₀ es k)
    (hfrom : ∀ e ∈ es, e.FromUserMode) (A : Addresses) (other : Nat → Nat) {t : Trap}
    {out : ProcessContext} (hmem : Event.trap t out ∈ es) :
    Confines (k.processor L A other) out :=
  confines_of_userMode ((Confined.run hboot h hfrom).2.2 _ hmem) k L A other

theorem user_code_confined_sample_run :
    ∃ k₀ k₁ k₂ k₃ k₄ k₅ out₁ out₃ out₄ out₅ p q child,
      kmain sampleLayout (sampleBoot 2 (by decide) .fcfs) = some k₀ ∧
      SampleRun k₀ k₁ k₂ k₃ k₄ k₅ out₁ out₃ out₄ out₅ p q child ∧
      Confines (k₅.processor sampleLayout sampleAddresses fun _ => 0) out₅ := by
  obtain ⟨k₀, k₁, k₂, k₃, k₄, k₅, out₁, out₃, out₄, out₅, p, q, child, hboot, hplenty, hrun⟩ :=
    sampleRun_exists
  have hlast : Event.trap (.syscall (sampleCall 5) fun _ => none) out₅ ∈
      sampleEvents out₁ out₃ out₄ out₅ := by
    simp [sampleEvents]
  exact ⟨k₀, k₁, k₂, k₃, k₄, k₅, out₁, out₃, out₄, out₅, p, q, child, hboot, hrun,
    user_code_confined hboot (hrun.runs hplenty) (sampleEvents_fromUserMode out₁ out₃ out₄ out₅)
      sampleAddresses _ hlast⟩

end Entry

end Kernel

end SoKernel
