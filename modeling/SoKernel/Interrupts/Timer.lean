import SoKernel.Scheduler.Schedule

/-!
# The timer interrupt

This module models the interrupt path of {lit}`interrupts/pit.c`.  A frame taken from
ring 3 carries the user stack and may be handed to the scheduler; any other frame only
counts the tick.
-/

namespace SoKernel

/-- {lit}`frame_user_to_context`. -/
def frameUserToContext (frame : PitIrqFrameUser) : ProcessContext where
  ebp := frame.common.ebp
  edi := frame.common.edi
  esi := frame.common.esi
  edx := frame.common.edx
  ecx := frame.common.ecx
  ebx := frame.common.ebx
  eax := frame.common.eax
  eip := frame.common.eip
  cs := frame.common.cs
  eflags := frame.common.eflags
  userEsp := frame.userEsp
  userSs := frame.userSs

/-- {lit}`frame_context_to_user`. -/
def frameContextToUser (ctx : ProcessContext) : PitIrqFrameUser where
  common := ⟨ctx.ebp, ctx.edi, ctx.esi, ctx.edx, ctx.ecx, ctx.ebx, ctx.eax, ctx.eip, ctx.cs,
    ctx.eflags⟩
  userEsp := ctx.userEsp
  userSs := ctx.userSs

@[simp]
theorem frameUserToContext_frameContextToUser (ctx : ProcessContext) :
    frameUserToContext (frameContextToUser ctx) = ctx :=
  rfl

namespace Kernel

/-- {lit}`timer_interrupt_handler`. -/
def timerInterruptHandler (k : Kernel) (frame : PitIrqFrameUser) : Kernel × PitIrqFrameUser :=
  let k := { k with pitTicks := u32 (k.pitTicks + 1) }
  if k.sched.preemptionEnabled = true ∧ frame.common.cs &&& 3 = 3 then
    let (code, k, context) :=
      k.schedulerScheduleFromContext (frameUserToContext frame) true .pit
    (k, if code > 0 then frameContextToUser context else frame)
  else (k, frame)

end Kernel

end SoKernel
