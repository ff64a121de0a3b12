import SoKernel.Kernel.State

/-!
# The scheduler

This module models {lit}`scheduler/scheduler.c`: pids, the bounded ready queue with
its two ways to take a process out, the burst prediction, and
{lit}`scheduler_schedule_from_context`, which every switch goes through.

Main results:

- Theorem {lit}`schedulerPickNext_spec`: picking takes exactly one process out of a
  queue that has any.
- Theorem {lit}`schedule_cases`: what one call of
  {lit}`scheduler_schedule_from_context` can do.
-/

namespace SoKernel

namespace Kernel

/-! ## The source functions -/

/-- {lit}`scheduler_allocate_pid`. -/
def schedulerAllocatePid (k : Kernel) : Nat × Kernel :=
  let next := u32 (k.sched.nextPid + 1)
  (k.sched.nextPid, { k with sched := { k.sched with nextPid := if next = 0 then 1 else next } })

/-- {lit}`scheduler_set_current`. -/
def schedulerSetCurrent (k : Kernel) (p : Nat) : Kernel :=
  let k := { k with sched := { k.sched with currentPcb := p } }
  if p = 0 then k else k.setPcb p { k.pcbs p with lastDispatchTick := k.pitTicks }

/-- {lit}`scheduler_enqueue_ready`; a refusal changes nothing. -/
def schedulerEnqueueReady (k : Kernel) (p : Nat) : Option Kernel :=
  if p = 0 then none
  else if h : k.sched.ready.len < readyQueueCapacity then
    some { k with sched := { k.sched with ready := k.sched.ready.enqueue p h } }
  else none

/-- {lit}`scheduler_dequeue_ready`; 0 when the queue is empty. -/
def schedulerDequeueReady (k : Kernel) : Nat × Kernel :=
  if h : 0 < k.sched.ready.len then
    (k.sched.ready.front, { k with sched := { k.sched with ready := k.sched.ready.dequeue h } })
  else (0, k)

/-- {lit}`predicted_burst_for_sjf`. -/
def predictedBurstForSjf (k : Kernel) (p : Nat) : Nat :=
  if p = 0 then 0xFFFFFFFF
  else if (k.pcbs p).state ≠ .ready then 0xFFFFFFFF
  else if (k.pcbs p).predictedBurst = 0 then 0xFFFFFFFF
  else (k.pcbs p).predictedBurst

/-- The scan of {lit}`scheduler_dequeue_sjf`: the best index so far, with the capacity
for none, and its burst. -/
def sjfBest (k : Kernel) : Nat × Nat :=
  forRange k.sched.ready.len (fun i best =>
    let candidate := k.predictedBurstForSjf (k.sched.ready.get i)
    if best.1 = readyQueueCapacity ∨ candidate < best.2 then (i, candidate) else best)
    (readyQueueCapacity, 0xFFFFFFFF)

/-- {lit}`scheduler_dequeue_sjf`; 0 when the queue is empty. -/
def schedulerDequeueSjf (k : Kernel) : Nat × Kernel :=
  if h : 0 < k.sched.ready.len then
    let best := k.sjfBest.1
    if best = readyQueueCapacity then (0, k)
    else
      (k.sched.ready.get best,
        { k with sched := { k.sched with ready := k.sched.ready.removeAt best h } })
  else (0, k)

/-- {lit}`scheduler_pick_next`. -/
def schedulerPickNext (k : Kernel) : Nat × Kernel :=
  match k.sched.schedulingPolicy with
  | .sjf => k.schedulerDequeueSjf
  | .rr => k.schedulerDequeueReady
  | .fcfs => k.schedulerDequeueReady

/-- The ticks a burst took: at least 1, and 1 when the counter ran backwards. -/
def elapsedTicks (now last : Nat) : Nat :=
  let elapsed := if now ≥ last then now - last else 1
  if elapsed = 0 then 1 else elapsed

/-- {lit}`scheduler_update_burst_prediction` on a control block. -/
def schedulerUpdateBurstPrediction (b : Pcb) (now : Nat) : Pcb :=
  let elapsed := elapsedTicks now b.lastDispatchTick
  let predicted :=
    if b.predictedBurst = 0 then elapsed else u32 (b.predictedBurst + elapsed) / 2
  { b with burstTime := elapsed, predictedBurst := if predicted = 0 then 1 else predicted }

/-- {lit}`scheduler_init_context_from_pcb`. -/
def schedulerInitContextFromPcb (b : Pcb) : Pcb :=
  { b with context := ⟨0, 0, 0, 0, 0, 0, 0, b.eip, b.cs, b.eflags, b.esp, b.ss⟩ }

/-- A control block after the interrupted image is saved in it. -/
def savedIn (context : ProcessContext) (b : Pcb) : Pcb :=
  { b with
    context := context
    eip := context.eip
    esp := context.userEsp
    eflags := context.eflags
    cs := context.cs
    ss := context.userSs }

/-- The end of a switch: the picked process becomes current, its address space and
kernel stack are loaded, and its image is what the interrupt returns to. -/
def dispatch (k : Kernel) (current next : Nat) (contextId : StatContext) :
    Kernel × ProcessContext :=
  let k := k.schedulerSetCurrent next
  let k := k.setPcb next { k.pcbs next with state := .running }
  let k :=
    if contextId ≠ .exit then
      k.logProcessStat (k.pcbs current).pid (if contextId = .pit then .preempted else .yielded)
        contextId
    else k
  let k := k.logProcessStat (k.pcbs next).pid .scheduled contextId
  let k :=
    if k.sched.schedulingPolicy = .rr then
      { k with sched := { k.sched with remainingTicks := k.sched.quantumTicks } }
    else k
  let k :=
    if (k.pcbs next).pdt ≠ (k.pcbs current).pdt then
      { k with store := { k.store with mem := k.store.mem.updateCr3 (k.pcbs next).pdt } }
    else k
  let k := { k with tssEsp0 := (k.pcbs next).kernelEsp0 }
  let k :=
    if (k.pcbs next).context.cs = 0 then
      k.setPcb next (schedulerInitContextFromPcb (k.pcbs next))
    else k
  (k, { (k.pcbs next).context with eflags := (k.pcbs next).context.eflags ||| 0x200 })

/-- {lit}`scheduler_schedule_from_context`: the result code, the kernel, and the
context the caller's pointer now holds. -/
def schedulerScheduleFromContext (k : Kernel) (context : ProcessContext) (requeueCurrent : Bool)
    (contextId : StatContext) : Int × Kernel × ProcessContext :=
  let current := k.sched.currentPcb
  if current = 0 then (-1, k, context)
  else if k.sched.schedulingPolicy = .rr ∧ requeueCurrent = true ∧ k.sched.remainingTicks > 1 then
    (0, { k with sched := { k.sched with remainingTicks := k.sched.remainingTicks - 1 } }, context)
  else
    let k :=
      if k.sched.schedulingPolicy = .rr ∧ requeueCurrent = true then
        { k with sched := { k.sched with remainingTicks := k.sched.quantumTicks } }
      else k
    let k := k.setPcb current (savedIn context (k.pcbs current))
    let k :=
      if requeueCurrent then
        k.setPcb current
          { schedulerUpdateBurstPrediction (k.pcbs current) k.pitTicks with state := .ready }
      else k
    match if requeueCurrent then k.schedulerEnqueueReady current else some k with
    | none => (0, k.setPcb current { k.pcbs current with state := .running }, context)
    | some k =>
        let (next, k) := k.schedulerPickNext
        if next = 0 then
          (0, k.setPcb current { k.pcbs current with state := .running }, context)
        else
          let (k, context) := k.dispatch current next contextId
          (1, k, context)

/-! ## The queue -/

/-- What a call of {lit}`scheduler_enqueue_ready` can do. -/
theorem schedulerEnqueueReady_cases (k : Kernel) {p : Nat} (hp : p ≠ 0) :
    (k.sched.ready.len < readyQueueCapacity ∧ ∃ ready : RingBuffer Nat readyQueueCapacity,
        ready.toList = k.sched.ready.toList ++ [p] ∧
        k.schedulerEnqueueReady p = some { k with sched := { k.sched with ready := ready } }) ∨
      (k.sched.ready.len = readyQueueCapacity ∧ k.schedulerEnqueueReady p = none) := by
  unfold schedulerEnqueueReady
  rw [if_neg hp]
  split
  · rename_i h
    exact .inl ⟨h, _, RingBuffer.toList_enqueue _ p h, rfl⟩
  · rename_i h
    exact .inr ⟨le_antisymm k.sched.ready.len_le (not_lt.1 h), rfl⟩

theorem len_pos_of_toList {b : RingBuffer Nat readyQueueCapacity} (h : b.toList ≠ []) :
    0 < b.len := by
  rw [← b.length_toList]
  exact List.length_pos_iff.2 h

/-- Taking from the front of a queue that is not empty. -/
theorem schedulerDequeueReady_spec {k : Kernel} (h : k.sched.ready.toList ≠ []) :
    ∃ next, ∃ ready : RingBuffer Nat readyQueueCapacity,
      k.sched.ready.toList = next :: ready.toList ∧
      k.schedulerDequeueReady = (next, { k with sched := { k.sched with ready := ready } }) := by
  have hpos := len_pos_of_toList h
  refine ⟨_, k.sched.ready.dequeue hpos, RingBuffer.toList_dequeue _ hpos, ?_⟩
  rw [schedulerDequeueReady, dif_pos hpos]

/-- What the scan has found among the first {lit}`n` processes: the first one with the least
burst. -/
structure ShortestOf (k : Kernel) (n : Nat) (best : Nat × Nat) : Prop where
  index : best.1 < n
  burst : best.2 = k.predictedBurstForSjf (k.sched.ready.get best.1)
  least : ∀ j, j < n → best.2 ≤ k.predictedBurstForSjf (k.sched.ready.get j)
  first : ∀ j, j < best.1 → best.2 < k.predictedBurstForSjf (k.sched.ready.get j)

/-- The scan over a queue that is not empty finds the first process with the least burst. -/
theorem sjfBest_spec {k : Kernel} (h : 0 < k.sched.ready.len) :
    ShortestOf k k.sched.ready.len k.sjfBest := by
  have hcap := k.sched.ready.len_le
  have hscan : (k.sched.ready.len = 0 ∧ k.sjfBest.1 = readyQueueCapacity) ∨
      ShortestOf k k.sched.ready.len k.sjfBest := by
    refine forRange_induct (fun i (best : Nat × Nat) =>
      (i = 0 ∧ best.1 = readyQueueCapacity) ∨ ShortestOf k i best) (.inl ⟨rfl, rfl⟩) ?_
    intro i hi best ih
    right
    simp only
    split
    · rename_i htake
      -- Once there is a best process, only a smaller burst replaces it.
      have hless : ShortestOf k i best → k.predictedBurstForSjf (k.sched.ready.get i) < best.2 := by
        intro hbest
        rcases htake with hnone | hless
        · have := hbest.index
          omega
        · exact hless
      refine ⟨Nat.lt_succ_self i, rfl, fun j hj => ?_, fun j hj => ?_⟩
      · rcases ih with ⟨rfl, -⟩ | hbest
        · rw [show j = 0 by omega]
        · rcases Nat.lt_succ_iff_lt_or_eq.1 hj with hlt | rfl
          · exact ((hless hbest).trans_le (hbest.least j hlt)).le
          · exact le_rfl
      · rcases ih with ⟨rfl, -⟩ | hbest
        · omega
        · exact (hless hbest).trans_le (hbest.least j hj)
    · rename_i hno
      rcases ih with ⟨-, hnone⟩ | hbest
      · exact absurd (.inl hnone) hno
      · refine ⟨Nat.lt_succ_of_lt hbest.index, hbest.burst, fun j hj => ?_, hbest.first⟩
        rcases Nat.lt_succ_iff_lt_or_eq.1 hj with hlt | rfl
        · exact hbest.least j hlt
        · exact not_lt.1 fun hless => hno (.inr hless)
  rcases hscan with ⟨hzero, -⟩ | hbest
  · omega
  · exact hbest

/-- Picking from a queue that is not empty takes exactly one process out of it, the
first one unless the policy is shortest job first. -/
theorem schedulerPickNext_spec {k : Kernel} (h : k.sched.ready.toList ≠ []) :
    ∃ next, ∃ ready : RingBuffer Nat readyQueueCapacity,
      k.sched.ready.toList.Perm (next :: ready.toList) ∧
      (k.sched.schedulingPolicy ≠ .sjf → k.sched.ready.toList = next :: ready.toList) ∧
      k.schedulerPickNext = (next, { k with sched := { k.sched with ready := ready } }) := by
  have hpos := len_pos_of_toList h
  cases hpol : k.sched.schedulingPolicy with
  | sjf =>
      have hbest := (sjfBest_spec hpos).index
      have hcap := k.sched.ready.len_le
      refine ⟨_, k.sched.ready.removeAt k.sjfBest.1 hpos,
        RingBuffer.perm_removeAt _ hpos hbest, fun hne => absurd rfl hne, ?_⟩
      simp only [schedulerPickNext, hpol, schedulerDequeueSjf, dif_pos hpos]
      rw [if_neg (by omega)]
  | rr =>
      obtain ⟨next, ready, hlist, hres⟩ := schedulerDequeueReady_spec h
      refine ⟨next, ready, List.Perm.of_eq hlist, fun _ => hlist, ?_⟩
      simp only [schedulerPickNext, hpol, hres]
  | fcfs =>
      obtain ⟨next, ready, hlist, hres⟩ := schedulerDequeueReady_spec h
      refine ⟨next, ready, List.Perm.of_eq hlist, fun _ => hlist, ?_⟩
      simp only [schedulerPickNext, hpol, hres]

theorem schedulerPickNext_empty {k : Kernel} (h : k.sched.ready.toList = []) :
    k.schedulerPickNext = (0, k) := by
  have hlen : ¬ 0 < k.sched.ready.len := by
    rw [← k.sched.ready.length_toList, h]
    simp
  unfold schedulerPickNext schedulerDequeueSjf schedulerDequeueReady
  cases k.sched.schedulingPolicy <;> simp [hlen]

/-! ## The switch -/

/-- The control block of a process when it is dispatched at a tick. -/
def incoming (b : Pcb) (now : Nat) : Pcb :=
  if b.context.cs = 0 then
    schedulerInitContextFromPcb { b with lastDispatchTick := now, state := .running }
  else { b with lastDispatchTick := now, state := .running }

/-- The control block of the process that is interrupted. -/
def outgoing (b : Pcb) (context : ProcessContext) (requeue : Bool) (now : Nat) : Pcb :=
  if requeue then { schedulerUpdateBurstPrediction (savedIn context b) now with state := .ready }
  else savedIn context b

/-- The lines a switch writes to the log. -/
def switchLog (k : Kernel) (current next : Nat) (contextId : StatContext) : List StatLine :=
  (if contextId ≠ .exit then
      [⟨(k.pcbs current).pid, k.pitTicks, if contextId = .pit then .preempted else .yielded,
        contextId⟩]
    else []) ++ [⟨(k.pcbs next).pid, k.pitTicks, .scheduled, contextId⟩]

/-- The kernel after a switch. -/
def switched (k : Kernel) (current next : Nat) (contextId : StatContext) : Kernel :=
  { k with
    sched := { k.sched with
      currentPcb := next
      remainingTicks :=
        if k.sched.schedulingPolicy = .rr then k.sched.quantumTicks else k.sched.remainingTicks }
    pcbs := Function.update k.pcbs next (incoming (k.pcbs next) k.pitTicks)
    store := { k.store with mem :=
      if (k.pcbs next).pdt ≠ (k.pcbs current).pdt then k.store.mem.updateCr3 (k.pcbs next).pdt
      else k.store.mem }
    tssEsp0 := (k.pcbs next).kernelEsp0
    statLog := k.statLog ++ k.switchLog current next contextId }

@[simp]
theorem incoming_fields (b : Pcb) (now : Nat) :
    (incoming b now).pid = b.pid ∧ (incoming b now).ppid = b.ppid ∧ (incoming b now).pdt = b.pdt ∧
      (incoming b now).kernelEsp0 = b.kernelEsp0 ∧
      (incoming b now).kernelStackBase = b.kernelStackBase ∧
      (incoming b now).state = .running := by
  unfold incoming schedulerInitContextFromPcb
  split <;> simp

@[simp]
theorem outgoing_fields (b : Pcb) (context : ProcessContext) (requeue : Bool) (now : Nat) :
    (outgoing b context requeue now).pid = b.pid ∧ (outgoing b context requeue now).pdt = b.pdt ∧
      (outgoing b context requeue now).kernelEsp0 = b.kernelEsp0 ∧
      (outgoing b context requeue now).kernelStackBase = b.kernelStackBase ∧
      (outgoing b context requeue now).context = context := by
  unfold outgoing schedulerUpdateBurstPrediction savedIn
  cases requeue <;> simp

/-- The end of a switch, in one piece. -/
theorem dispatch_eq (k : Kernel) (current : Nat) {next : Nat} (hnext : next ≠ 0)
    (contextId : StatContext) :
    k.dispatch current next contextId =
      (k.switched current next contextId,
        { (incoming (k.pcbs next) k.pitTicks).context with
          eflags := (incoming (k.pcbs next) k.pitTicks).context.eflags ||| 0x200 }) := by
  rcases Classical.propComplete (contextId = .exit) with hexit | hexit <;>
    rcases Classical.propComplete (k.sched.schedulingPolicy = .rr) with hrr | hrr <;>
    rcases Classical.propComplete ((k.pcbs next).pdt = (k.pcbs current).pdt) with hdir | hdir <;>
    rcases Classical.propComplete ((k.pcbs next).context.cs = 0) with hcs | hcs <;>
    by_cases hself : current = next <;>
    simp [dispatch, schedulerSetCurrent, setPcb, logProcessStat, switched, switchLog, incoming,
      schedulerInitContextFromPcb, hnext, hexit, hrr, hdir, hcs, hself]

/-! ## What one call can do -/

/-- The kernel when the outgoing process has been saved, with the queue still to
change: the quantum is refilled and the image stands in the control block. -/
def saved (k : Kernel) (context : ProcessContext) (requeue : Bool) : Kernel :=
  { k with
    sched := { k.sched with
      remainingTicks :=
        if k.sched.schedulingPolicy = .rr ∧ requeue = true then k.sched.quantumTicks
        else k.sched.remainingTicks }
    pcbs := Function.update k.pcbs k.sched.currentPcb
      (outgoing k.current context requeue k.pitTicks) }

/-- The queue from which the next process is picked. -/
def candidates (k : Kernel) (requeue : Bool) : List Nat :=
  k.sched.ready.toList ++ if requeue then [k.sched.currentPcb] else []

/-- The outcomes of {lit}`scheduler_schedule_from_context` for a current process. -/
inductive ScheduleOutcome (k : Kernel) (context : ProcessContext) (requeue : Bool)
    (contextId : StatContext) : Int × Kernel × ProcessContext → Prop
  | sliceLeft (hrr : k.sched.schedulingPolicy = .rr) (hreq : requeue = true)
      (hleft : k.sched.remainingTicks > 1) :
      ScheduleOutcome k context requeue contextId
        (0, { k with sched := { k.sched with remainingTicks := k.sched.remainingTicks - 1 } },
          context)
  | refused (hreq : requeue = true)
      (hslice : ¬ (k.sched.schedulingPolicy = .rr ∧ k.sched.remainingTicks > 1))
      (hfull : k.sched.ready.len = readyQueueCapacity) :
      ScheduleOutcome k context requeue contextId
        (0, (k.saved context requeue).setPcb k.sched.currentPcb
          { outgoing k.current context requeue k.pitTicks with state := .running }, context)
  | alone (hreq : requeue = false) (hempty : k.sched.ready.toList = []) :
      ScheduleOutcome k context requeue contextId
        (0, (k.saved context requeue).setPcb k.sched.currentPcb
          { outgoing k.current context requeue k.pitTicks with state := .running }, context)
  | switch {next : Nat} {ready : RingBuffer Nat readyQueueCapacity}
      (hslice : requeue = true → ¬ (k.sched.schedulingPolicy = .rr ∧ k.sched.remainingTicks > 1))
      (hroom : requeue = true → k.sched.ready.len < readyQueueCapacity)
      (hperm : (k.candidates requeue).Perm (next :: ready.toList))
      (hfifo : k.sched.schedulingPolicy ≠ .sjf → k.candidates requeue = next :: ready.toList) :
      ScheduleOutcome k context requeue contextId
        (1, ({ k.saved context requeue with
            sched := { (k.saved context requeue).sched with ready := ready } } : Kernel).switched
              k.sched.currentPcb next contextId,
          { (incoming ((k.saved context requeue).pcbs next) k.pitTicks).context with
            eflags :=
              (incoming ((k.saved context requeue).pcbs next) k.pitTicks).context.eflags ||| 0x200 })

/-- The part of the call after the slice check, once the outgoing process is saved. -/
def afterSave (k : Kernel) (current : Nat) (context : ProcessContext) (requeue : Bool)
    (contextId : StatContext) : Int × Kernel × ProcessContext :=
  match if requeue then k.schedulerEnqueueReady current else some k with
  | none => (0, k.setPcb current { k.pcbs current with state := .running }, context)
  | some k =>
      let (next, k) := k.schedulerPickNext
      if next = 0 then
        (0, k.setPcb current { k.pcbs current with state := .running }, context)
      else
        let (k, context) := k.dispatch current next contextId
        (1, k, context)

theorem schedule_eq_afterSave {k : Kernel} (context : ProcessContext) {requeue : Bool}
    (contextId : StatContext) (hcur : k.sched.currentPcb ≠ 0)
    (hslice : requeue = true →
      ¬ (k.sched.schedulingPolicy = .rr ∧ k.sched.remainingTicks > 1)) :
    k.schedulerScheduleFromContext context requeue contextId =
      (k.saved context requeue).afterSave k.sched.currentPcb context requeue contextId := by
  cases requeue with
  | false =>
      simp [schedulerScheduleFromContext, hcur, afterSave, saved, setPcb, outgoing, current]
  | true =>
      by_cases hrr : k.sched.schedulingPolicy = .rr
      · have hleft : ¬ 1 < k.sched.remainingTicks := fun h => hslice rfl ⟨hrr, h⟩
        simp [schedulerScheduleFromContext, hcur, hrr, hleft, afterSave, saved, setPcb, outgoing,
          current]
      · simp [schedulerScheduleFromContext, hcur, hrr, afterSave, saved, setPcb, outgoing, current]

/-- What one call of {lit}`scheduler_schedule_from_context` can do. -/
theorem schedule_cases {k : Kernel} (context : ProcessContext) (requeue : Bool)
    (contextId : StatContext) (hzero : 0 ∉ k.members) :
    ScheduleOutcome k context requeue contextId
      (k.schedulerScheduleFromContext context requeue contextId) := by
  have hcur : k.sched.currentPcb ≠ 0 := fun h => hzero (by simp [members, h])
  have hqueue : 0 ∉ k.sched.ready.toList := fun h => hzero (by simp [members, h])
  by_cases hslice : requeue = true ∧ k.sched.schedulingPolicy = .rr ∧ k.sched.remainingTicks > 1
  · obtain ⟨rfl, hrr, hleft⟩ := hslice
    have hres : k.schedulerScheduleFromContext context true contextId =
        (0, { k with sched := { k.sched with remainingTicks := k.sched.remainingTicks - 1 } },
          context) := by
      simp [schedulerScheduleFromContext, hcur, hrr, hleft]
    rw [hres]
    exact .sliceLeft hrr rfl hleft
  · have hnot : requeue = true →
        ¬ (k.sched.schedulingPolicy = .rr ∧ k.sched.remainingTicks > 1) :=
      fun hreq h => hslice ⟨hreq, h⟩
    rw [schedule_eq_afterSave context contextId hcur hnot]
    have hblock : (k.saved context requeue).pcbs k.sched.currentPcb =
        outgoing k.current context requeue k.pitTicks := Function.update_self ..
    -- Picking from a queue that holds no null pointer ends in a switch.
    have hpick : ∀ ready : RingBuffer Nat readyQueueCapacity,
        ready.toList = k.candidates requeue → ready.toList ≠ [] →
        (requeue = true → k.sched.ready.len < readyQueueCapacity) →
        (if requeue then (k.saved context requeue).schedulerEnqueueReady k.sched.currentPcb
          else some (k.saved context requeue)) =
            some { k.saved context requeue with
              sched := { (k.saved context requeue).sched with ready := ready } } →
        ScheduleOutcome k context requeue contextId
          ((k.saved context requeue).afterSave k.sched.currentPcb context requeue contextId) := by
      intro ready hready hne hroom henq
      obtain ⟨next, ready', hperm, hfifo, hres⟩ := schedulerPickNext_spec
        (k := { k.saved context requeue with
          sched := { (k.saved context requeue).sched with ready := ready } }) hne
      simp only [hready] at hperm hfifo
      have hnext : next ≠ 0 := by
        rintro rfl
        have hmem : 0 ∈ k.candidates requeue := hperm.mem_iff.2 List.mem_cons_self
        rcases List.mem_append.1 hmem with h | h
        · exact hqueue h
        · cases requeue
          · simp at h
          · exact hcur (by simpa [eq_comm] using h)
      simp only [afterSave, henq, hres]
      rw [if_neg hnext, dispatch_eq _ _ hnext]
      exact .switch hnot hroom hperm hfifo
    cases requeue with
    | false =>
        by_cases hempty : k.sched.ready.toList = []
        · have hres := schedulerPickNext_empty (k := k.saved context false) hempty
          simp only [afterSave, hres, Bool.false_eq_true, if_false, if_true, hblock]
          exact .alone rfl hempty
        · exact hpick k.sched.ready (by simp [candidates]) hempty (fun h => by cases h) rfl
    | true =>
        rcases schedulerEnqueueReady_cases (k.saved context true) hcur with
          ⟨hroom, ready, hready, henq⟩ | ⟨hfull, henq⟩
        · exact hpick ready hready (by rw [hready]; simp) (fun _ => hroom) henq
        · simp only [afterSave, henq, if_true, hblock]
          exact .refused rfl (hnot rfl) hfull

/-- The control blocks after a switch: the process that left is saved, the one that came is
running, the others are as they were. -/
theorem switched_pcbs (k : Kernel) (c : ProcessContext) (requeue : Bool)
    (ready : RingBuffer Nat readyQueueCapacity) (next : Nat) (id : StatContext) (p : Nat) :
    (({ k.saved c requeue with
        sched := { (k.saved c requeue).sched with ready := ready } } : Kernel).switched
          k.sched.currentPcb next id).pcbs p =
      if p = next then incoming ((k.saved c requeue).pcbs next) k.pitTicks
      else if p = k.sched.currentPcb then outgoing k.current c requeue k.pitTicks
      else k.pcbs p := by
  by_cases hnext : p = next
  · subst hnext
    simp [switched, saved]
  · by_cases hcur : p = k.sched.currentPcb
    · subst hcur
      simp [switched, saved, hnext]
    · simp [switched, saved, hnext, hcur]

/-- The control blocks after a call that saved the image and found nothing to switch to. -/
theorem stayed_pcbs (k : Kernel) (c : ProcessContext) (requeue : Bool) (p : Nat) :
    ((k.saved c requeue).setPcb k.sched.currentPcb
        { outgoing k.current c requeue k.pitTicks with state := .running }).pcbs p =
      if p = k.sched.currentPcb then
        { outgoing k.current c requeue k.pitTicks with state := .running }
      else k.pcbs p := by
  by_cases hcur : p = k.sched.currentPcb
  · subst hcur
    simp [setPcb]
  · simp [setPcb, saved, hcur]

end Kernel

end SoKernel
