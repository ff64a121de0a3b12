import SoKernel.Kernel.Events
import SoKernel.Scheduler.Rotation

/-!
# How long a process waits

Unless the policy is shortest job first, the place of a process in the ready queue and the
ticks that are left of the running slice bound the scheduling calls before its turn: every
call uses up a tick of the slice or moves the queue by one.  The bound needs room in the
queue.  A full queue is never left but by an exit, and until then one process runs.

Main results:

- Theorem {lit}`bounded_waiting`: a process at place {lit}`i` of the queue waits for fewer than
  {lit}`i + 1` slices of scheduling calls.
- Theorem {lit}`full_queue_starves`: without an exit a full queue stays as it is.
-/

namespace SoKernel

namespace Kernel

/-- The ticks of a slice. -/
def slice (k : Kernel) : Nat :=
  if k.sched.schedulingPolicy = .rr then k.sched.quantumTicks else 1

/-- The ticks that are left of the running slice. -/
def sliceLeft (k : Kernel) : Nat :=
  if k.sched.schedulingPolicy = .rr then k.sched.remainingTicks else 1

/-- The scheduling calls that a process in the queue has to wait for at most. -/
def waitingCalls (k : Kernel) (p : Nat) : Nat :=
  k.sched.ready.toList.idxOf p * k.slice + k.sliceLeft

/-- A process that waits in the queue of a scheduler that takes the processes in turn. -/
structure InLine (p : Nat) (k : Kernel) : Prop where
  waits : p ∈ k.sched.ready.toList
  policy : k.sched.schedulingPolicy ≠ .sjf
  preemption : k.sched.preemptionEnabled = true
  remains : 1 ≤ k.sliceLeft ∧ k.sliceLeft ≤ k.slice

/-- One event with room in the queue, after which {lit}`p` is still waiting. -/
structure WaitStep (L : Layout) (safe : Prop) (p : Nat) (k : Kernel) (e : Event) (k' : Kernel) :
    Prop where
  step : k.Step L safe e k'
  room : k.sched.ready.len < readyQueueCapacity
  waits : p ∈ k'.sched.ready.toList

section BoundedWaiting

variable {L : Layout} {R : Nat → Prop} {safe : Prop} {B : BootInfo} {k k₀ k' : Kernel} {p : Nat}

/-! ## One scheduling call -/

/-- Places and slices are a matter of the scheduler alone. -/
theorem InLine.congr (h : InLine p k) (hsched : k'.sched = k.sched) :
    InLine p k' ∧ k'.waitingCalls p = k.waitingCalls p := by
  have hslice : k'.slice = k.slice := by rw [slice, hsched, slice]
  have hleft : k'.sliceLeft = k.sliceLeft := by rw [sliceLeft, hsched, sliceLeft]
  refine ⟨⟨hsched ▸ h.waits, hsched ▸ h.policy, hsched ▸ h.preemption, ?_⟩, ?_⟩
  · rw [hslice, hleft]
    exact h.remains
  · rw [waitingCalls, hslice, hleft, hsched, waitingCalls]

/-- A queue that another one continues has its processes at the same places. -/
theorem InLine.grown (h : InLine p k) {more : List Nat}
    (hready : k'.sched.ready.toList = k.sched.ready.toList ++ more)
    (hsettings : sameSettings k.sched k'.sched)
    (hleft : k'.sched.remainingTicks = k.sched.remainingTicks) :
    InLine p k' ∧ k'.waitingCalls p = k.waitingCalls p := by
  obtain ⟨hon, hpolicy, hquantum⟩ := hsettings
  have hslice : k'.slice = k.slice := by rw [slice, hpolicy, hquantum, slice]
  have hsliceLeft : k'.sliceLeft = k.sliceLeft := by rw [sliceLeft, hpolicy, hleft, sliceLeft]
  refine ⟨⟨?_, hpolicy ▸ h.policy, hon.trans h.preemption, ?_⟩, ?_⟩
  · rw [hready]
    exact List.mem_append_left _ h.waits
  · rw [hslice, hsliceLeft]
    exact h.remains
  · rw [waitingCalls, hslice, hsliceLeft, hready, List.idxOf_append_of_mem h.waits, waitingCalls]

/-- A switch moves the queue by one and starts a slice. -/
theorem InLine.moved (h : InLine p k) {next : Nat} {requeue : Bool}
    (hlist : k.candidates requeue = next :: k'.sched.ready.toList)
    (hnodup : (k.candidates requeue).Nodup) (hwaits : p ∈ k'.sched.ready.toList)
    (hsettings : sameSettings k.sched k'.sched)
    (hleft : k.sched.schedulingPolicy = .rr → k'.sched.remainingTicks = k.sched.quantumTicks) :
    InLine p k' ∧ k'.waitingCalls p + 1 ≤ k.waitingCalls p := by
  obtain ⟨hon, hpolicy, hquantum⟩ := hsettings
  obtain ⟨hpos, hle⟩ := h.remains
  have hslice : k'.slice = k.slice := by rw [slice, hpolicy, hquantum, slice]
  have hsliceLeft : k'.sliceLeft = k.slice := by
    unfold sliceLeft slice
    rw [hpolicy]
    split
    · rename_i hrr
      exact hleft hrr
    · rfl
  have hnext : p ≠ next := by
    rintro rfl
    rw [hlist] at hnodup
    exact (List.nodup_cons.1 hnodup).1 hwaits
  have hplace : k.sched.ready.toList.idxOf p = k'.sched.ready.toList.idxOf p + 1 := by
    have hplace := congrArg (List.idxOf p) hlist
    rw [candidates, List.idxOf_append_of_mem h.waits, List.idxOf_cons_ne _ (Ne.symm hnext)] at hplace
    exact hplace
  refine ⟨⟨hwaits, hpolicy ▸ h.policy, hon.trans h.preemption, ?_⟩, ?_⟩
  · rw [hslice, hsliceLeft]
    exact ⟨hpos.trans hle, le_rfl⟩
  · rw [waitingCalls, hslice, hsliceLeft, waitingCalls, hplace, Nat.add_mul, Nat.one_mul]
    omega

/-- A scheduling call brings a process in the queue nearer to its turn. -/
theorem InLine.schedule (h : InLine p k) (hnodup : k.members.Nodup) (hz : 0 ∉ k.members)
    {c out : ProcessContext} {requeue : Bool} {id : StatContext} {code : Int}
    (hrun : k.schedulerScheduleFromContext c requeue id = (code, k', out))
    (hroom : k.sched.ready.len < readyQueueCapacity) (hwaits : p ∈ k'.sched.ready.toList) :
    InLine p k' ∧ k'.waitingCalls p + 1 ≤ k.waitingCalls p := by
  have hcases := schedule_cases c requeue id hz
  rw [hrun] at hcases
  cases hcases with
  | sliceLeft hrr hreq hleft =>
      obtain ⟨hpos, hle⟩ := h.remains
      have hslice : k.slice = k.sched.quantumTicks := if_pos hrr
      have hleft' : k.sliceLeft = k.sched.remainingTicks := if_pos hrr
      have hnext : sliceLeft { k with sched := { k.sched with
          remainingTicks := k.sched.remainingTicks - 1 } } = k.sched.remainingTicks - 1 :=
        if_pos hrr
      refine ⟨⟨h.waits, h.policy, h.preemption, ?_⟩, ?_⟩
      · rw [hnext]
        change 1 ≤ k.sched.remainingTicks - 1 ∧ k.sched.remainingTicks - 1 ≤ k.slice
        omega
      · rw [waitingCalls, hnext, waitingCalls, hleft']
        change k.sched.ready.toList.idxOf p * k.slice + _ + 1 ≤ _
        omega
  | refused hreq hslice hfull => omega
  | alone hreq hempty =>
      have hmem := h.waits
      rw [hempty] at hmem
      cases hmem
  | @switch next ready hslice hroom' hperm hfifo =>
      have hcand : (k.candidates requeue).Nodup := by
        cases requeue with
        | false =>
            rw [candidates, if_neg Bool.false_ne_true, List.append_nil]
            exact (List.nodup_cons.1 hnodup).2
        | true => exact (List.perm_append_singleton _ _).nodup_iff.2 hnodup
      exact h.moved (hfifo h.policy) hcand hwaits ⟨rfl, rfl, rfl⟩ fun hrr => if_pos hrr

/-! ## Runs -/

/-- An event with room in the queue brings a process in the queue nearer to its turn, by one
for a scheduling call. -/
theorem InLine.step (h : InLine p k) (hinv : Inv L R safe k) {e : Event}
    (hstep : WaitStep L safe p k e k') :
    InLine p k' ∧ k'.waitingCalls p + e.calls ≤ k.waitingCalls p := by
  have hnodup := hinv.members_nodup
  have hz := hinv.zero_notMem
  obtain ⟨hstep, hroom, hwaits⟩ := hstep
  cases hstep with
  | @write va byte k' hsafe hw =>
      obtain ⟨i, j, f, hpage⟩ := hinv.writePage hsafe hw
      rw [hpage.kernel]
      exact ⟨⟨h.waits, h.policy, h.preemption, h.remains⟩, le_rfl⟩
  | @trap t out k' ht =>
      obtain ⟨-, hserved⟩ := hinv.served ht
      cases hserved.sched h.preemption with
      | grown hready hsched hcalls hexit =>
          obtain ⟨hline, hsame⟩ := h.grown hready (by rw [hsched]; exact ⟨rfl, rfl, rfl⟩)
            (by rw [hsched])
          refine ⟨hline, ?_⟩
          rw [hsame, Event.calls, hcalls]
          exact le_rfl
      | @called k₁ k₂ c out requeue id code hsame hrun hsched hcalls hexit =>
          obtain ⟨hline, hbefore⟩ := h.congr hsame
          have hmembers : k₁.members = k.members := by rw [members, hsame, members]
          obtain ⟨hline', hspent⟩ := hline.schedule (hmembers ▸ hnodup) (hmembers ▸ hz) hrun
            (hsame ▸ hroom) (hsched ▸ hwaits)
          obtain ⟨hline'', hafter⟩ := hline'.congr hsched
          refine ⟨hline'', ?_⟩
          rw [hafter, ← hbefore, Event.calls, hcalls]
          exact hspent

/-- The settings of boot, and what is left of the running slice. -/
structure Turning (B : BootInfo) (k : Kernel) : Prop where
  preemption : k.sched.preemptionEnabled = true
  policy : k.sched.schedulingPolicy = B.policy
  quantum : k.sched.quantumTicks = quantumOf B.quantum
  remaining : 1 ≤ k.sched.remainingTicks ∧ k.sched.remainingTicks ≤ quantumOf B.quantum

theorem Turning.schedule (h : Turning B k) (hz : 0 ∉ k.members) {c out : ProcessContext}
    {requeue : Bool} {id : StatContext} {code : Int}
    (hrun : k.schedulerScheduleFromContext c requeue id = (code, k', out)) : Turning B k' := by
  obtain ⟨hpos, hle⟩ := h.remaining
  have hq : 1 ≤ k.sched.quantumTicks ∧ k.sched.quantumTicks ≤ quantumOf B.quantum := by
    rw [h.quantum]
    exact ⟨hpos.trans hle, le_rfl⟩
  have hsaved : 1 ≤ (k.saved c requeue).sched.remainingTicks ∧
      (k.saved c requeue).sched.remainingTicks ≤ quantumOf B.quantum := by
    simp only [saved]
    split
    · exact hq
    · exact ⟨hpos, hle⟩
  have hcases := schedule_cases c requeue id hz
  rw [hrun] at hcases
  cases hcases with
  | sliceLeft hrr hreq hleft =>
      refine ⟨h.preemption, h.policy, h.quantum, ?_⟩
      simp only
      omega
  | refused hreq hslice hfull => exact ⟨h.preemption, h.policy, h.quantum, hsaved⟩
  | alone hreq hempty => exact ⟨h.preemption, h.policy, h.quantum, hsaved⟩
  | switch hslice hroom hperm hfifo =>
      refine ⟨h.preemption, h.policy, h.quantum, ?_⟩
      simp only [switched]
      split
      · exact hq
      · exact hsaved

theorem Turning.congr (h : Turning B k) (hsettings : sameSettings k.sched k'.sched)
    (hleft : k'.sched.remainingTicks = k.sched.remainingTicks) : Turning B k' := by
  obtain ⟨hon, hpolicy, hquantum⟩ := hsettings
  exact ⟨hon.trans h.preemption, hpolicy.trans h.policy, hquantum.trans h.quantum, hleft ▸ h.remaining⟩

theorem Turning.step (h : Turning B k) (hinv : Inv L R safe k) {e : Event}
    (hstep : k.Step L safe e k') : Turning B k' := by
  cases hstep with
  | write hsafe hw =>
      obtain ⟨i, j, f, hpage⟩ := hinv.writePage hsafe hw
      rw [hpage.kernel]
      exact h.congr ⟨rfl, rfl, rfl⟩ rfl
  | trap ht =>
      cases (hinv.served ht).2.sched h.preemption with
      | grown hready hsched hcalls hexit =>
          refine h.congr ?_ ?_
          · rw [hsched]
            exact ⟨rfl, rfl, rfl⟩
          · rw [hsched]
      | @called k₁ k₂ c out requeue id code hsame hrun hsched hcalls hexit =>
          have hmembers : k₁.members = k.members := by rw [members, hsame, members]
          have hbefore : Turning B k₁ := h.congr (by rw [hsame]; exact ⟨rfl, rfl, rfl⟩) (by rw [hsame])
          refine (hbefore.schedule (hmembers ▸ hinv.zero_notMem) hrun).congr ?_ ?_
          · rw [hsched]
            exact ⟨rfl, rfl, rfl⟩
          · rw [hsched]

/-- The settings of boot hold along runs. -/
theorem turning_reachable (hboot : kmain L B = some k₀) (hk : Reachable L k₀ k) : Turning B k := by
  have hinv₀ := kmain_inv hboot
  have hstarted := kmain_started hboot
  have hstart : Turning B k₀ := by
    refine ⟨hstarted.preemption, hstarted.policy, hstarted.quantum.1, ?_⟩
    rw [hstarted.quantum.2, quantumOf]
    split
    · exact ⟨le_rfl, le_rfl⟩
    · omega
  obtain ⟨es, hruns⟩ := reachable_iff_trace.1 hk
  have hboth := @Trace.invariant _ _ _ (fun _ => True) _ _ _
    (fun k => Turning B k ∧ Inv L (Reserved L B.mods) (k₀.store.mem.pfa.exhausted = false) k)
    ⟨hstart, hinv₀⟩ (fun _ _ _ h _ hstep => ⟨h.1.step h.2 hstep, h.2.step hstep⟩) hruns fun _ _ => trivial
  exact hboth.1

/-- Under round robin and under first come first served, a process at place {lit}`i` of the
ready queue is dispatched within {lit}`i + 1` slices of ticks, yields and exits, as long as
the queue has room. -/
theorem bounded_waiting (hboot : kmain L B = some k₀) (hpolicy : B.policy ≠ .sjf)
    (hk : Reachable L k₀ k) {i : Nat} (hi : k.sched.ready.toList[i]? = some p) {es : List Event}
    (hruns : Trace (WaitStep L (k₀.store.mem.pfa.exhausted = false) p) k es k') :
    (es.map Event.calls).sum <
      (i + 1) * if B.policy = .rr then quantumOf B.quantum else 1 := by
  have hinv := (kmain_inv hboot).reachable hk
  have hturn := turning_reachable hboot hk
  have hslice : k.slice = if B.policy = .rr then quantumOf B.quantum else 1 := by
    rw [slice, hturn.policy, hturn.quantum]
  have hleft : 1 ≤ k.sliceLeft ∧ k.sliceLeft ≤ k.slice := by
    rw [hslice, sliceLeft, hturn.policy]
    split
    · exact hturn.remaining
    · exact ⟨le_rfl, le_rfl⟩
  have hline : InLine p k := by
    refine ⟨List.mem_of_getElem? hi, ?_, hturn.preemption, hleft⟩
    rw [hturn.policy]
    exact hpolicy
  have hplace : k.sched.ready.toList.idxOf p = i := by
    obtain ⟨hlt, hget⟩ := List.getElem?_eq_some_iff.1 hi
    have hnodup := (List.nodup_cons.1 hinv.members_nodup).2
    rw [← hget]
    exact hnodup.idxOf_getElem i hlt
  obtain ⟨⟨hline', -⟩, hcost⟩ := @Trace.cost_le _ _ _ (fun _ => True) _ _ _
    (fun k => InLine p k ∧ Inv L (Reserved L B.mods) (k₀.store.mem.pfa.exhausted = false) k)
    (fun k => k.waitingCalls p) Event.calls ⟨hline, hinv⟩
    (fun _ _ _ h _ hstep => by
      obtain ⟨hnext, hpaid⟩ := h.1.step h.2 hstep
      exact ⟨⟨hnext, h.2.step hstep.step⟩, hpaid⟩) hruns fun _ _ => trivial
  have hlast := hline'.remains.1
  have hbound : k.waitingCalls p ≤ (i + 1) * k.slice := by
    rw [waitingCalls, hplace, Nat.add_mul, Nat.one_mul]
    exact Nat.add_le_add_left hleft.2 _
  have hpaid : k'.sliceLeft ≤ k'.waitingCalls p := Nat.le_add_left _ _
  rw [hslice] at hbound
  omega

theorem bounded_waiting_one_tick :
    ∃ k₀ k₁ out p, kmain sampleLayout (sampleBoot 2 (by decide) .rr) = some k₀ ∧
      k₀.sched.ready.toList[0]? = some p ∧
      Trace (WaitStep sampleLayout (k₀.store.mem.pfa.exhausted = false) p) k₀
        [.trap (.timer sampleTick) out] k₁ ∧
      ([Event.trap (.timer sampleTick) out].map Event.calls).sum < (0 + 1) * 3 := by
  obtain ⟨k₀, hboot, -, hlen, -⟩ :=
    sampleBoot_runs (show 0 < 2 by decide) (by decide) SchedulingPolicy.rr
  have hinv := kmain_inv hboot
  have hstarted := kmain_started hboot
  have htrap := trap_timer (L := sampleLayout) hstarted.idle sampleTick
  -- The slice of boot is three ticks long, so the first tick does not end it.
  have hremaining : k₀.sched.remainingTicks = 3 := hstarted.quantum.2
  have hsched := @tick_slice k₀ sampleTick hstarted.policy hstarted.preemption (by decide)
    (by omega) fun hz => hinv.zero_notMem (hz ▸ k₀.current_mem)
  rw [members, List.length_cons, RingBuffer.length_toList] at hlen
  have hget := RingBuffer.getElem?_toList k₀.sched.ready (show 0 < k₀.sched.ready.len by omega)
  have hroom : k₀.sched.ready.len < readyQueueCapacity := by
    rw [Nat.succ.inj hlen]
    decide
  have hwaits : k₀.sched.ready.slots ((k₀.sched.ready.head + 0) % readyQueueCapacity) ∈
      (k₀.timerInterruptHandler sampleTick).1.sched.ready.toList := by
    rw [hsched]
    exact List.mem_of_getElem? hget
  have hstep := @WaitStep.mk _ (k₀.store.mem.pfa.exhausted = false) _ _ _ _ (.trap htrap) hroom hwaits
  have hruns := Trace.start.next hstep
  exact ⟨k₀, _, _, _, hboot, hget, hruns,
    bounded_waiting hboot (by decide) .boot hget hruns⟩

/-! ## A full queue -/

/-- An event that is not an exit leaves a full queue as it is. -/
theorem full_queue_step (hinv : Inv L R safe k) (hon : k.sched.preemptionEnabled = true)
    (hfull : k.sched.ready.len = readyQueueCapacity) {e : Event} (hstay : ¬ e.IsExit)
    (hstep : k.Step L safe e k') : k'.members = k.members := by
  cases hstep with
  | write hsafe hw =>
      obtain ⟨i, j, f, hpage⟩ := hinv.writePage hsafe hw
      rw [hpage.kernel]
      rfl
  | trap ht =>
      cases (hinv.served ht).2.sched hon with
      | @grown more hready hsched hcalls hexit =>
          have hlen := congrArg List.length hready
          have hle := k'.sched.ready.len_le
          rw [List.length_append, RingBuffer.length_toList, RingBuffer.length_toList] at hlen
          have hnone : more = [] := List.eq_nil_of_length_eq_zero (by omega)
          rw [hnone, List.append_nil] at hready
          rw [members, hready, hsched, members]
      | @called k₁ k₂ c out requeue id code hsame hrun hsched hcalls hexit =>
          have hmembers : k₁.members = k.members := by rw [members, hsame, members]
          have hcases := schedule_cases c requeue id (hmembers ▸ hinv.zero_notMem)
          rw [hrun] at hcases
          have hreq : requeue = true := by
            cases requeue with
            | false => exact absurd (hexit.1 rfl) hstay
            | true => rfl
          rw [members, hsched, ← hmembers]
          cases hcases with
          | sliceLeft hrr hreq hleft => rfl
          | refused hreq hslice hfull => rfl
          | alone hreq' hempty => exact Bool.noConfusion (hreq.symm.trans hreq')
          | switch hslice hroom hperm hfifo =>
              have := hroom hreq
              rw [hsame] at this
              omega

/-- Under every policy, the process that runs when the queue is full keeps the processor
until it exits, however many ticks pass and whatever calls it makes. -/
theorem full_queue_starves (hboot : kmain L B = some k₀) (hk : Reachable L k₀ k)
    (hfull : k.sched.ready.len = readyQueueCapacity) {es : List Event}
    (hruns : Trace (Step L (k₀.store.mem.pfa.exhausted = false)) k es k')
    (hstay : ∀ e ∈ es, ¬ e.IsExit) : k'.members = k.members := by
  have hlen : ∀ k' : Kernel, k'.members = k.members → k'.sched.ready.len = readyQueueCapacity := by
    intro k' hmembers
    have hlen := congrArg List.length (List.cons.inj hmembers).2
    rw [RingBuffer.length_toList, RingBuffer.length_toList] at hlen
    exact hlen.trans hfull
  have hboth := hruns.invariant (fun k' => k'.members = k.members ∧ Turning B k' ∧
    Inv L (Reserved L B.mods) (k₀.store.mem.pfa.exhausted = false) k')
    ⟨rfl, turning_reachable hboot hk, (kmain_inv hboot).reachable hk⟩
    (fun s e s' h hstay hstep => by
      obtain ⟨hmembers, hturn, hinv⟩ := h
      refine ⟨?_, hturn.step hinv hstep, hinv.step hstep⟩
      rw [full_queue_step hinv hturn.preemption (hlen s hmembers) hstay hstep, hmembers]) hstay
  exact hboth.1

theorem full_queue_starves_one_tick :
    ∃ k₀ k₁ out, kmain sampleLayout (sampleBoot 33 (by decide) .sjf) = some k₀ ∧
      k₀.trap sampleLayout (.timer sampleTick) = some (k₁, out) ∧ k₁.members = k₀.members := by
  obtain ⟨k₀, hboot, -, hlen, -⟩ :=
    sampleBoot_runs (show 0 < 33 by decide) (by decide) SchedulingPolicy.sjf
  have htrap := trap_timer (L := sampleLayout) (kmain_started hboot).idle sampleTick
  rw [members, List.length_cons, RingBuffer.length_toList] at hlen
  refine ⟨k₀, _, _, hboot, htrap, full_queue_starves hboot .boot (Nat.succ.inj hlen)
    (Trace.start.next (.trap htrap)) fun e he => ?_⟩
  obtain rfl := List.mem_singleton.1 he
  exact id

end BoundedWaiting

end Kernel

end SoKernel
