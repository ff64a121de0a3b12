import SoKernel.Library.Traces
import SoKernel.Scheduler.Contexts

/-!
# The events of a run

A run of the system is a trace of events: traps, each with the register image that the
processor gets back, and user writes.  This module states what a trap leaves behind by the
kind of call that served it, so that a property of whole runs is a case analysis on a
handful of outcomes.

Main results:

- Theorem {lit}`reachable_iff_trace`: the reachable states are the ends of traces.
- Theorem {lit}`Inv.served`: every trap is served in one of these ways.
-/

namespace SoKernel

/-- An event of the running system. -/
inductive Event where
  | trap (t : Trap) (out : ProcessContext)
  | write (va : Nat) (byte : UInt8)

/-- A timer interrupt comes from ring 3, where every process runs. -/
def Trap.FromRing3 : Trap → Prop
  | .timer frame => frame.common.cs &&& 3 = 3
  | .syscall _ _ => True

/-- The traps of an event come from ring 3. -/
def Event.FromRing3 : Event → Prop
  | .trap t _ => t.FromRing3
  | .write _ _ => True

/-- The timer ticks of an event. -/
def Event.ticks : Event → Nat
  | .trap (.timer _) _ => 1
  | _ => 0

/-- The scheduling calls of a trap with preemption on: a tick from ring 3, a yield and an
exit make one. -/
def Trap.calls : Trap → Nat
  | .timer frame => if frame.common.cs &&& 3 = 3 then 1 else 0
  | .syscall frame _ => if frame.eax = 4 ∨ frame.eax = 5 then 1 else 0

/-- The scheduling calls of an event. -/
def Event.calls : Event → Nat
  | .trap t _ => t.calls
  | .write _ _ => 0

/-- Whether an event is a call of {lit}`sys_exit`. -/
def Event.IsExit : Event → Prop
  | .trap t _ => t.IsExit
  | .write _ _ => False

namespace Kernel

/-- One event takes the kernel from one state to another; {lit}`safe` says that boot ran out
of no frame. -/
inductive Step (L : Layout) (safe : Prop) (k : Kernel) : Event → Kernel → Prop
  | trap {t : Trap} {out : ProcessContext} {k' : Kernel} (ht : k.trap L t = some (k', out)) :
      Step L safe k (.trap t out) k'
  | write {va : Nat} {byte : UInt8} {k' : Kernel} (hsafe : safe)
      (hw : k.userWrite va byte = some k') : Step L safe k (.write va byte) k'

/-- The runs of the system from {lit}`k₀`. -/
abbrev Runs (L : Layout) (k₀ : Kernel) : List Event → Kernel → Prop :=
  Trace (Step L (k₀.store.mem.pfa.exhausted = false)) k₀

section Events

variable {L : Layout} {R : Nat → Prop} {safe : Prop} {B : BootInfo} {k k₀ k' : Kernel}

/-- A run ends in a reachable state. -/
theorem Runs.reachable {es : List Event} (h : Runs L k₀ es k) : Reachable L k₀ k := by
  induction h with
  | start => exact .boot
  | next hs ha ih =>
      cases ha with
      | trap ht => exact .trap ih ht
      | write hsafe hw => exact .write ih hsafe hw

/-- The reachable states are the ends of runs. -/
theorem reachable_iff_trace : Reachable L k₀ k ↔ ∃ es, Runs L k₀ es k := by
  constructor
  · intro h
    induction h with
    | boot => exact ⟨[], .start⟩
    | trap hk ht ih =>
        obtain ⟨es, hes⟩ := ih
        exact ⟨_, hes.next (.trap ht)⟩
    | write hk hsafe hw ih =>
        obtain ⟨es, hes⟩ := ih
        exact ⟨_, hes.next (.write hsafe hw)⟩
  · rintro ⟨es, hes⟩
    exact Runs.reachable hes

/-- The events of the sample run. -/
def sampleEvents (out₁ out₃ out₄ out₅ : ProcessContext) : List Event :=
  [.trap (.syscall sampleExec (samplePath 97)) out₁, .write 0xBFFFF000 42,
    .trap (.syscall (sampleCall 3) fun _ => none) out₃, .trap (.timer sampleTick) out₄,
    .trap (.syscall (sampleCall 5) fun _ => none) out₅]

/-- The sample run is a run. -/
theorem SampleRun.runs {k₁ k₂ k₃ k₄ k₅ : Kernel} {out₁ out₃ out₄ out₅ : ProcessContext}
    {p q child : Nat} (h : SampleRun k₀ k₁ k₂ k₃ k₄ k₅ out₁ out₃ out₄ out₅ p q child)
    (hplenty : k₀.store.mem.pfa.exhausted = false) :
    Runs sampleLayout k₀ (sampleEvents out₁ out₃ out₄ out₅) k₅ := by
  have hexec : Runs sampleLayout k₀ _ k₁ := Trace.start.next (.trap h.exec)
  have hwrite : Runs sampleLayout k₀ _ k₂ := hexec.next (.write hplenty h.write)
  have hfork : Runs sampleLayout k₀ _ k₃ := hwrite.next (.trap h.fork)
  have htick : Runs sampleLayout k₀ _ k₄ := hfork.next (.trap h.tick)
  exact htick.next (.trap h.exit)

/-! ## How traps are served -/

/-- The scheduling call of a timer interrupt or of a yield, by its state and its origin. -/
inductive RequeueCall (k : Kernel) : Trap → Kernel → StatContext → Prop
  | timer {frame : PitIrqFrameUser} (henabled : k.sched.preemptionEnabled = true)
      (hring : frame.common.cs &&& 3 = 3) : RequeueCall k (.timer frame) k.tick .pit
  | yield {frame : SyscallFrame} {kernelByte : Nat → Option UInt8} (hring : frame.cs % 4 = 3)
      (hnumber : frame.eax = 4) : RequeueCall k (.syscall frame kernelByte) k .yield

/-- Lines about creations only, of the present tick, have been added to the log. -/
def LogsCreations (k k' : Kernel) : Prop :=
  ∃ more, k'.statLog = k.statLog ++ more ∧
    ∀ line ∈ more, line.event = .created ∧ line.ticks = k.pitTicks

/-- Nothing was logged. -/
theorem LogsCreations.of_same (h : k'.statLog = k.statLog) : LogsCreations k k' :=
  ⟨[], by rw [h, List.append_nil], fun line hline => by cases hline⟩

theorem LogsCreations.congr {k₁ : Kernel} (h : LogsCreations k₁ k') (hlog : k₁.statLog = k.statLog)
    (hticks : k₁.pitTicks = k.pitTicks) : LogsCreations k k' := by
  unfold LogsCreations at h ⊢
  rw [hlog, hticks] at h
  exact h

/-- The kernel stack of a new process does not touch the log and the clock. -/
theorem allocKernelStack_clock (L : Layout) (k : Kernel) (pcb : Nat) :
    (k.allocKernelStack L pcb).2.statLog = k.statLog ∧
      (k.allocKernelStack L pcb).2.pitTicks = k.pitTicks := by
  unfold allocKernelStack
  simp only
  split
  · exact ⟨rfl, rfl⟩
  · exact ⟨rfl, rfl⟩

/-- The end of a fork logs a creation or nothing. -/
theorem forkEnqueue_creations (k : Kernel) (frame : SyscallFrame) (child pid pdt : Nat) :
    LogsCreations k (k.forkEnqueue frame child pid pdt).2 := by
  unfold forkEnqueue
  simp only
  cases henq : (k.setPcb child _).schedulerEnqueueReady child with
  | none => exact .of_same rfl
  | some k₁ =>
      have hsame : k₁.statLog = k.statLog ∧ k₁.pitTicks = k.pitTicks := by
        unfold schedulerEnqueueReady at henq
        split at henq
        · cases henq
        · split at henq
          · cases henq
            exact ⟨rfl, rfl⟩
          · cases henq
      refine ⟨[_], congrArg (· ++ [_]) hsame.1, fun line hline => ?_⟩
      obtain rfl := List.mem_singleton.1 hline
      exact ⟨rfl, hsame.2⟩

/-- A fork logs a creation or nothing. -/
theorem sysFork_creations (L : Layout) (k : Kernel) (frame : SyscallFrame) :
    LogsCreations k (k.sysFork L frame).2 := by
  unfold sysFork
  simp only
  split
  · exact .of_same rfl
  · split
    · exact .of_same rfl
    · unfold forkSpace
      simp only
      split
      · exact .of_same rfl
      · unfold forkStack
        simp only
        split
        · refine .of_same ?_
          exact (allocKernelStack_clock ..).1
        · refine (forkEnqueue_creations ..).congr ?_ ?_
          · exact (allocKernelStack_clock ..).1
          · exact (allocKernelStack_clock ..).2

/-- An exec logs a creation or nothing. -/
theorem execModule_creations (k : Kernel) (frame : SyscallFrame) (a b : Nat) :
    LogsCreations k (k.execModule frame a b).2.1 := by
  unfold execModule
  simp only
  split
  · exact .of_same rfl
  · split
    · exact .of_same rfl
    · refine ⟨[_], rfl, fun line hline => ?_⟩
      obtain rfl := List.mem_singleton.1 hline
      exact ⟨rfl, rfl⟩

/-- The ways to serve a trap. -/
inductive Served (L : Layout) (R : Nat → Prop) (safe : Prop) (k : Kernel) :
    Trap → Kernel → ProcessContext → Prop
  | quiet {frame : PitIrqFrameUser}
      (hquiet : ¬ (k.sched.preemptionEnabled = true ∧ frame.common.cs &&& 3 = 3)) :
      Served L R safe k (.timer frame) k.tick (frameUserToContext frame)
  | requeued {t : Trap} {k₁ k' : Kernel} {id : StatContext} {code : Int} {out : ProcessContext}
      (call : RequeueCall k t k₁ id)
      (hrun : k₁.schedulerScheduleFromContext t.image true id = (code, k', out)) :
      Served L R safe k t k' out
  | kept {frame : SyscallFrame} {kernelByte : Nat → Option UInt8} {r : Nat}
      (hring : frame.cs % 4 = 3) (hnumber : frame.eax ∉ [3, 4, 5]) :
      Served L R safe k (.syscall frame kernelByte) k (returned frame r)
  | gaveUp {frame : SyscallFrame} {kernelByte : Nat → Option UInt8} {k' : Kernel}
      (hring : frame.cs % 4 = 3) (hnumber : frame.eax = 2 ∨ frame.eax = 3) (aside : Aside k k')
      (counter : k'.sched.nextPid = k.sched.nextPid ∨
        frame.eax = 3 ∧ k'.sched.nextPid = k.schedulerAllocatePid.2.sched.nextPid)
      (log : LogsCreations k k') :
      Served L R safe k (.syscall frame kernelByte) k' (returned frame minusOne)
  | executed {frame : SyscallFrame} {kernelByte : Nat → Option UInt8} {a b d : Nat} {k' : Kernel}
      (hring : frame.cs % 4 = 3) (hnumber : frame.eax = 2) (executed : Executed k a b k' d)
      (log : LogsCreations k k') :
      Served L R safe k (.syscall frame kernelByte) k'
        (returned (execFrame frame ⟨4096 * d, 0, 0xBFFFFFF8⟩) 0)
  | forked {frame : SyscallFrame} {kernelByte : Nat → Option UInt8} {child d base : Nat}
      {k' : Kernel} (hring : frame.cs % 4 = 3) (hnumber : frame.eax = 3)
      (forked : Forked k frame k' child d base) (log : LogsCreations k k') :
      Served L R safe k (.syscall frame kernelByte) k' (returned frame k.sched.nextPid)
  | left {frame : SyscallFrame} {kernelByte : Nat → Option UInt8} {code : Int} {k₂ : Kernel}
      {out : ProcessContext} (hring : frame.cs % 4 = 3) (hnumber : frame.eax = 5)
      (hrun : k.markTerminated.schedulerScheduleFromContext (ProcessContext.ofWords frame.words)
        false .exit = (code, k₂, out)) :
      Served L R safe k (.syscall frame kernelByte)
        (if code > 0 then { k₂.withMem (k₂.store.mem.destroyUserSpace
            (k.markTerminated.pcbs k.sched.currentPcb).pdt) with
          exited := k₂.exited ++ [k.sched.currentPcb] }
        else { k₂ with idle := true }) out

/-- Every trap is served in one of these ways. -/
theorem Inv.served (h : Inv L R safe k) {t : Trap} {out : ProcessContext}
    (ht : k.trap L t = some (k', out)) : k.idle = false ∧ Served L R safe k t k' out := by
  have hz := h.zero_notMem
  obtain ⟨hidle, hcase⟩ := trap_cases ht
  refine ⟨hidle, ?_⟩
  cases hcase with
  | quiet hquiet => exact .quiet hquiet
  | @timer frame code k' context henabled hring hrun =>
      have hout : (if code > 0 then context else frameUserToContext frame) = context := by
        split
        · rfl
        · rename_i hno
          exact (schedule_same_image (k := k.tick) hz hrun hno).symm
      rw [hout]
      exact .requeued (.timer henabled hring) hrun
  | plain hring hnumber =>
      refine .kept hring fun hmem => hnumber ?_
      exact List.mem_cons_of_mem _ hmem
  | @exec frame frame' kernelByte r k' hring hnumber hrun =>
      rcases sysExec_cases hrun with heq | ⟨path, a, b, -, -, heq⟩
      · cases heq
        refine .kept hring fun hmem => ?_
        rw [hnumber] at hmem
        revert hmem
        decide
      · have hspec := execModule_spec h frame a b
        have hlog := k.execModule_creations frame a b
        rw [← heq] at hspec hlog
        cases hspec with
        | failed inv aside short restored rest =>
            exact .gaveUp hring (.inl hnumber) aside (.inl (by rw [rest])) hlog
        | done inv executed => exact .executed hring hnumber executed hlog
  | @fork frame kernelByte r k' hring hnumber hrun =>
      have hspec := sysFork_spec h frame
      have hlog := k.sysFork_creations L frame
      rw [hrun] at hspec hlog
      cases hspec with
      | failed inv aside short spent counter =>
          exact .gaveUp hring (.inr hnumber) aside (counter.imp_right fun h => ⟨hnumber, h⟩) hlog
      | forked inv forked => exact .forked hring hnumber forked hlog
  | @yield frame frame' kernelByte r k' hring hnumber hrun =>
      obtain ⟨code, k₂, context, hsched, hyield⟩ := sysYield_eq hz h.holding.cr3 frame
      rw [hrun, Prod.mk.injEq, Prod.mk.injEq] at hyield
      obtain ⟨rfl, rfl, rfl⟩ := hyield
      rw [returned_ofWords]
      exact .requeued (.yield hring hnumber) hsched
  | @exit frame frame' kernelByte r k' hring hnumber hrun =>
      obtain ⟨code, k₂, context, hsched⟩ : ∃ code k₂ context,
          k.markTerminated.schedulerScheduleFromContext (ProcessContext.ofWords frame.words) false
            .exit = (code, k₂, context) := ⟨_, _, _, rfl⟩
      rw [sysExit_eq h.current_ne hsched, Prod.mk.injEq, Prod.mk.injEq] at hrun
      obtain ⟨rfl, rfl, rfl⟩ := hrun
      rw [returned_ofWords]
      exact .left hring hnumber hsched

/-- An event keeps the invariant. -/
theorem Inv.step (h : Inv L R safe k) {e : Event} (hstep : k.Step L safe e k') :
    Inv L R safe k' := by
  cases hstep with
  | trap ht => exact h.trap ht
  | write hsafe hw => exact h.userWrite hsafe hw

/-! ## The scheduler in a run -/

/-- What a trap does to the scheduler: at most a pid is taken and a process enters at the end
of the queue, or one scheduling call is made. -/
inductive SchedEffect (k : Kernel) (t : Trap) (k' : Kernel) : Prop
  | grown {more : List Nat} (hready : k'.sched.ready.toList = k.sched.ready.toList ++ more)
      (hsched : k'.sched = { k.sched with
        nextPid := k'.sched.nextPid
        ready := k'.sched.ready })
      (hcalls : t.calls = 0) (hexit : ¬ t.IsExit)
  | called {k₁ k₂ : Kernel} {c out : ProcessContext} {requeue : Bool} {id : StatContext}
      {code : Int} (hsame : k₁.sched = k.sched)
      (hrun : k₁.schedulerScheduleFromContext c requeue id = (code, k₂, out))
      (hsched : k'.sched = k₂.sched) (hcalls : t.calls = 1)
      (hexit : requeue = false ↔ t.IsExit)

theorem Served.sched {t : Trap} {out : ProcessContext} (h : Served L R safe k t k' out)
    (hon : k.sched.preemptionEnabled = true) : SchedEffect k t k' := by
  cases h with
  | quiet hquiet =>
      exact .grown (List.append_nil _).symm rfl (if_neg fun hring => hquiet ⟨hon, hring⟩) id
  | requeued call hrun =>
      cases call with
      | timer henabled hring =>
          exact .called (show k.tick.sched = k.sched from rfl) hrun rfl (if_pos hring)
            ⟨fun hreq => Bool.noConfusion hreq, fun hexit => False.elim hexit⟩
      | yield hring hnumber =>
          refine .called rfl hrun rfl (if_pos (.inl hnumber))
            ⟨fun hreq => Bool.noConfusion hreq, fun hexit => ?_⟩
          simp only [Trap.IsExit] at hexit
          omega
  | @kept frame kernelByte r hring hnumber =>
      have hother : frame.eax ≠ 4 ∧ frame.eax ≠ 5 := by
        simpa using List.not_mem_of_not_mem_cons hnumber
      exact .grown (List.append_nil _).symm rfl (if_neg (by omega)) hother.2
  | gaveUp hring hnumber aside counter log =>
      have hready : k'.sched.ready.toList = k.sched.ready.toList ++ [] := by
        rw [aside.sched, List.append_nil]
      refine .grown hready ?_ (if_neg (by omega)) fun hexit => ?_
      · rw [aside.sched]
      · simp only [Trap.IsExit] at hexit
        omega
  | executed hring hnumber executed log =>
      have hready : k'.sched.ready.toList = k.sched.ready.toList ++ [] := by
        rw [executed.sched, List.append_nil]
      refine .grown hready ?_ (if_neg (by omega)) fun hexit => ?_
      · rw [executed.sched]
      · simp only [Trap.IsExit] at hexit
        omega
  | forked hring hnumber forked log =>
      refine .grown forked.ready ?_ (if_neg (by omega)) fun hexit => ?_
      · rw [forked.sched]
      · simp only [Trap.IsExit] at hexit
        omega
  | left hring hnumber hrun =>
      -- What an exit does after its scheduling call is not about the scheduler.
      have hsame : k.markTerminated.sched = k.sched := rfl
      refine .called hsame hrun ?_ (if_pos (.inr hnumber)) ⟨fun _ => hnumber, fun _ => rfl⟩
      split
      · rfl
      · rfl

end Events

end Kernel

end SoKernel
