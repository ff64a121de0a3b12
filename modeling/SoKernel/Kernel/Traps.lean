import SoKernel.Kernel.System

/-!
# What a trap can do

Every invariant of the running kernel is a statement about one trap.  This module says
once which call a trap ends in and which register image it returns to, so that each
invariant is a case analysis on calls.

Main results:

- Theorem {lit}`trap_cases`: the calls that a trap can end in.
-/

namespace SoKernel

/-- Whether a trap is a call of {lit}`sys_exit`. -/
def Trap.IsExit : Trap → Prop
  | .timer _ => False
  | .syscall frame _ => frame.eax = 5

/-- Whether a trap is a call of {lit}`sys_fork`. -/
def Trap.IsFork : Trap → Prop
  | .timer _ => False
  | .syscall frame _ => frame.eax = 3

namespace Kernel

/-- The kernel after the tick of a timer interrupt has been counted. -/
def tick (k : Kernel) : Kernel :=
  { k with pitTicks := u32 (k.pitTicks + 1) }

/-- The register image of a syscall frame whose {lit}`eax` has received a result. -/
def returned (frame : SyscallFrame) (r : Nat) : ProcessContext :=
  ProcessContext.ofWords ({ frame with eax := r } : SyscallFrame).words

@[simp]
theorem returned_ofWords (c : ProcessContext) :
    returned (SyscallFrame.ofWords c.words) c.eax = c :=
  rfl

/-- The calls that a trap can end in. -/
inductive TrapCase (L : Layout) (k : Kernel) : Trap → Kernel → ProcessContext → Prop
  | quiet {frame : PitIrqFrameUser}
      (hquiet : ¬ (k.sched.preemptionEnabled = true ∧ frame.common.cs &&& 3 = 3)) :
      TrapCase L k (.timer frame) k.tick (frameUserToContext frame)
  | timer {frame : PitIrqFrameUser} {code : Int} {k' : Kernel} {context : ProcessContext}
      (henabled : k.sched.preemptionEnabled = true) (hring : frame.common.cs &&& 3 = 3)
      (hrun : k.tick.schedulerScheduleFromContext (frameUserToContext frame) true .pit =
        (code, k', context)) :
      TrapCase L k (.timer frame) k' (if code > 0 then context else frameUserToContext frame)
  | plain {frame : SyscallFrame} {kernelByte : Nat → Option UInt8} {r : Nat}
      (hring : frame.cs % 4 = 3) (hnumber : frame.eax ∉ [2, 3, 4, 5]) :
      TrapCase L k (.syscall frame kernelByte) k (returned frame r)
  | exec {frame frame' : SyscallFrame} {kernelByte : Nat → Option UInt8} {r : Nat} {k' : Kernel}
      (hring : frame.cs % 4 = 3) (hnumber : frame.eax = 2)
      (hrun : k.sysExec kernelByte frame = some (r, k', frame')) :
      TrapCase L k (.syscall frame kernelByte) k' (returned frame' r)
  | fork {frame : SyscallFrame} {kernelByte : Nat → Option UInt8} {r : Nat} {k' : Kernel}
      (hring : frame.cs % 4 = 3) (hnumber : frame.eax = 3) (hrun : k.sysFork L frame = (r, k')) :
      TrapCase L k (.syscall frame kernelByte) k' (returned frame r)
  | yield {frame frame' : SyscallFrame} {kernelByte : Nat → Option UInt8} {r : Nat} {k' : Kernel}
      (hring : frame.cs % 4 = 3) (hnumber : frame.eax = 4) (hrun : k.sysYield frame = (r, k', frame')) :
      TrapCase L k (.syscall frame kernelByte) k' (returned frame' r)
  | exit {frame frame' : SyscallFrame} {kernelByte : Nat → Option UInt8} {r : Nat} {k' : Kernel}
      (hring : frame.cs % 4 = 3) (hnumber : frame.eax = 5) (hrun : k.sysExit frame = (r, k', frame')) :
      TrapCase L k (.syscall frame kernelByte) k' (returned frame' r)

variable {L : Layout} {k k' : Kernel} {t : Trap} {out : ProcessContext}

/-- A timer interrupt counts its tick and may call the scheduler. -/
theorem timer_cases (k : Kernel) (frame : PitIrqFrameUser) :
    TrapCase L k (.timer frame) (k.timerInterruptHandler frame).1
      (frameUserToContext (k.timerInterruptHandler frame).2) := by
  unfold timerInterruptHandler
  by_cases hring : k.sched.preemptionEnabled = true ∧ frame.common.cs &&& 3 = 3
  · have hout : ∀ (code : Int) (context : ProcessContext),
        frameUserToContext (if code > 0 then frameContextToUser context else frame) =
          if code > 0 then context else frameUserToContext frame := by
      intro code context
      split
      · rfl
      · rfl
    have htick : ({ k with pitTicks := u32 (k.pitTicks + 1) } : Kernel) = k.tick := rfl
    simp only [if_pos hring, hout, htick]
    generalize hrun : k.tick.schedulerScheduleFromContext (frameUserToContext frame) true .pit = r
    obtain ⟨code, k', context⟩ := r
    exact .timer hring.1 hring.2 hrun
  · simp only [if_neg hring]
    exact .quiet hring

/-- A trap ends in one of these calls, and the kernel was not idle. -/
theorem trap_cases (ht : k.trap L t = some (k', out)) : k.idle = false ∧ TrapCase L k t k' out := by
  unfold Kernel.trap at ht
  cases t with
  | timer frame =>
      simp only at ht
      split at ht
      · cases ht
      · rename_i hidle
        rw [Option.some.injEq, Prod.mk.injEq] at ht
        rw [← ht.1, ← ht.2]
        exact ⟨by simpa using hidle, timer_cases k frame⟩
  | syscall frame kernelByte =>
      simp only at ht
      split at ht
      · cases ht
      · rename_i hcond
        rw [not_or, Decidable.not_not] at hcond
        obtain ⟨hidle, hring⟩ := hcond
        refine ⟨by simpa using hidle, ?_⟩
        unfold syscallHandler128 at ht
        rw [Option.map_map, Option.map_eq_some_iff] at ht
        obtain ⟨⟨r, k₁, frame₁⟩, hrun, hr⟩ := ht
        simp only [Function.comp_apply, Prod.mk.injEq] at hr
        obtain ⟨rfl, rfl⟩ := hr
        unfold syscallDispatcher at hrun
        split at hrun
        case h_3 hnumber => exact .exec hring hnumber hrun
        case h_4 hnumber =>
          cases hrun
          exact .fork hring hnumber rfl
        case h_5 hnumber =>
          rw [Option.some.injEq] at hrun
          exact .yield hring hnumber hrun
        case h_6 hnumber =>
          rw [Option.some.injEq] at hrun
          exact .exit hring hnumber hrun
        case h_1 hnumber =>
          cases hrun
          exact .plain hring (by rw [hnumber]; decide)
        case h_2 hnumber =>
          cases hrun
          exact .plain hring (by rw [hnumber]; decide)
        case h_7 =>
          cases hrun
          refine .plain hring fun hmem => ?_
          simp_all

theorem markTerminated_pcbs (k : Kernel) (p : Nat) :
    k.markTerminated.pcbs p =
      if p = k.sched.currentPcb then { k.current with state := .terminated } else k.pcbs p := by
  by_cases hcur : p = k.sched.currentPcb
  · subst hcur
    simp [markTerminated, logProcessExit, logProcessStat, setPcb, current]
  · simp [markTerminated, logProcessExit, logProcessStat, setPcb, hcur]

/-- {lit}`sys_exit` by its scheduling call. -/
theorem sysExit_eq (hcur : k.sched.currentPcb ≠ 0) {frame : SyscallFrame} {code : Int}
    {k₂ : Kernel} {context : ProcessContext}
    (hrun : k.markTerminated.schedulerScheduleFromContext (ProcessContext.ofWords frame.words) false
      .exit = (code, k₂, context)) :
    k.sysExit frame =
      (context.eax,
        if code > 0 then { k₂.withMem (k₂.store.mem.destroyUserSpace
            (k.markTerminated.pcbs k.sched.currentPcb).pdt) with
          exited := k₂.exited ++ [k.sched.currentPcb] }
        else { k₂ with idle := true },
        SyscallFrame.ofWords context.words) := by
  unfold Kernel.sysExit
  simp only [if_neg hcur, hrun]
  split
  · rfl
  · rfl

/-- A system call from ring 3, by its call of the dispatcher. -/
theorem trap_syscall {frame frame' : SyscallFrame} {kernelByte : Nat → Option UInt8} {r : Nat}
    (hidle : k.idle = false) (hring : frame.cs % 4 = 3)
    (hrun : k.syscallDispatcher L kernelByte frame.eax frame = some (r, k', frame')) :
    k.trap L (.syscall frame kernelByte) = some (k', returned frame' r) := by
  simp only [Kernel.trap, hidle, hring, syscallHandler128, hrun, Option.map_some]
  rfl

/-- A call of {lit}`sys_exit` from ring 3. -/
theorem trap_exit (frame : SyscallFrame) (kernelByte : Nat → Option UInt8) (hidle : k.idle = false)
    (hring : frame.cs % 4 = 3) (hnumber : frame.eax = 5) :
    k.trap L (.syscall frame kernelByte) = some ((k.sysExit frame).2.1,
      returned (k.sysExit frame).2.2 (k.sysExit frame).1) :=
  trap_syscall hidle hring (by rw [hnumber]; rfl)

/-- A call of {lit}`sys_fork` from ring 3. -/
theorem trap_fork (frame : SyscallFrame) (kernelByte : Nat → Option UInt8) (hidle : k.idle = false)
    (hring : frame.cs % 4 = 3) (hnumber : frame.eax = 3) :
    k.trap L (.syscall frame kernelByte) = some ((k.sysFork L frame).2,
      returned frame (k.sysFork L frame).1) :=
  trap_syscall hidle hring (by rw [hnumber]; rfl)

/-- A timer interrupt while the kernel is not idle. -/
theorem trap_timer (hidle : k.idle = false) (frame : PitIrqFrameUser) :
    k.trap L (.timer frame) = some ((k.timerInterruptHandler frame).1,
      frameUserToContext (k.timerInterruptHandler frame).2) := by
  simp only [Kernel.trap, hidle]
  rfl

end Kernel

/-- A call of the given number from ring 3 with all other registers 0. -/
def sampleCall (number : Nat) : SyscallFrame :=
  ⟨0, 0, 0, 0, 0, 0, number, 0, 0x1B, 0x200, 0xBFFFFFF8, 0x23⟩

/-- A timer interrupt from ring 3 with all other registers 0. -/
def sampleTick : PitIrqFrameUser :=
  ⟨⟨0, 0, 0, 0, 0, 0, 0, 0, 0x1B, 0x200⟩, 0xBFFFFFF8, 0x23⟩

/-! ## Runs under a condition -/

/-- The states of the runs from {lit}`k₀` in which every trap meets a condition on the state
before it. -/
inductive ReachableWhere (L : Layout) (k₀ : Kernel) (ok : Kernel → Trap → Prop) : Kernel → Prop
  | boot : ReachableWhere L k₀ ok k₀
  | trap {k k' : Kernel} {t : Trap} {out : ProcessContext} (hk : ReachableWhere L k₀ ok k)
      (hok : ok k t) (ht : k.trap L t = some (k', out)) : ReachableWhere L k₀ ok k'
  | write {k k' : Kernel} {va : Nat} {byte : UInt8} (hk : ReachableWhere L k₀ ok k)
      (hsafe : k₀.store.mem.pfa.exhausted = false) (hw : k.userWrite va byte = some k') :
      ReachableWhere L k₀ ok k'

theorem ReachableWhere.reachable {L : Layout} {k₀ k : Kernel} {ok : Kernel → Trap → Prop}
    (h : ReachableWhere L k₀ ok k) : Reachable L k₀ k := by
  induction h with
  | boot => exact .boot
  | trap hk hok ht ih => exact .trap ih ht
  | write hk hsafe hw ih => exact .write ih hsafe hw

end SoKernel
