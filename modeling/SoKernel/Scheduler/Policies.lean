import SoKernel.Kernel.Events
import SoKernel.Scheduler.Pids
import SoKernel.Scheduler.ReadyQueue

/-!
# The policies at one tick a slice

{lit}`kmain` turns preemption on and picks shortest job first.  Every timer interrupt then
ends a burst of one tick, so that every prediction in the ready queue stays at one tick and
the scan for the shortest job always stops at the head.  Shortest job first and first come
first served are then the same scheduler, and both are round robin with a quantum of one
tick.

Main results:

- Theorem {lit}`schedule_head`: with level predictions and no slice left, a scheduling call takes
  the head of the queue.
- Theorem {lit}`Level.step`: the predictions stay level.
- Theorem {lit}`one_tick_policies_agree`: from the same boot, the policies have the same runs.
-/

namespace SoKernel

namespace Kernel

/-- The kernel with another scheduler. -/
def withSched (k : Kernel) (s : Scheduler) : Kernel :=
  { k with sched := s }

/-- Two schedulers that differ only in their settings and in where the ring of the ready queue
starts. -/
structure SameQueue (s s' : Scheduler) : Prop where
  currentPcb : s'.currentPcb = s.currentPcb
  preemption : s'.preemptionEnabled = s.preemptionEnabled
  nextPid : s'.nextPid = s.nextPid
  ready : s'.ready.toList = s.ready.toList

/-- Two kernels that differ only in the settings of the scheduler and in where the ring of
the ready queue starts. -/
inductive SameButPolicy (k : Kernel) : Kernel → Prop
  | intro {s : Scheduler} (queue : SameQueue k.sched s) : SameButPolicy k (k.withSched s)

/-- Two calls with the same result that leave two such kernels. -/
def SameResult {α : Type} (r r' : α × Kernel) : Prop :=
  r'.1 = r.1 ∧ SameButPolicy r.2 r'.2

/-- Two calls with the same code and the same frame that leave two such kernels. -/
def SameReply {α β : Type} (r r' : α × Kernel × β) : Prop :=
  r'.1 = r.1 ∧ r'.2.2 = r.2.2 ∧ SameButPolicy r.2.1 r'.2.1

/-- A scheduler for which every prediction in the queue is one tick, and so is that of the
current process, dispatched at tick {lit}`last`, unless the queue is full. -/
structure Level (last : Nat) (k : Kernel) : Prop where
  preemption : k.sched.preemptionEnabled = true
  ticks : k.pitTicks < 2 ^ 32
  slice : k.sched.schedulingPolicy = .rr → k.sched.quantumTicks = 1 ∧ k.sched.remainingTicks ≤ 1
  ready : ∀ p ∈ k.sched.ready.toList, (k.pcbs p).state = .ready ∧ (k.pcbs p).predictedBurst = 1
  current : k.sched.ready.len = readyQueueCapacity ∨
    k.current.predictedBurst = 1 ∧ k.current.lastDispatchTick = last

section Policies

variable {L : Layout} {R : Nat → Prop} {safe : Prop} {B : BootInfo} {k k₀ k' : Kernel}

/-! ## Taking the head -/

/-- When all bursts in a queue are equal, every policy picks the head. -/
theorem schedulerPickNext_head (h : k.sched.ready.toList ≠ [])
    (hlevel : k.sched.schedulingPolicy = .sjf →
      ∀ p ∈ k.sched.ready.toList, k.predictedBurstForSjf p = 1) :
    ∃ next, ∃ ready : RingBuffer Nat readyQueueCapacity,
      k.sched.ready.toList = next :: ready.toList ∧
      k.schedulerPickNext = (next, { k with sched := { k.sched with ready := ready } }) := by
  by_cases hpol : k.sched.schedulingPolicy = .sjf
  · have hpos := len_pos_of_toList h
    have hbest := sjfBest_spec hpos
    have hkey : ∀ i, i < k.sched.ready.len →
        k.predictedBurstForSjf (k.sched.ready.get i) = 1 := fun i hi =>
      hlevel hpol _ (RingBuffer.get_mem _ hi)
    -- A later process would need a smaller burst.
    have hfirst : k.sjfBest.1 = 0 := by
      by_contra hne
      have hless := hbest.first 0 (by omega)
      rw [hbest.burst, hkey _ hbest.index, hkey 0 hpos] at hless
      omega
    have hhead := RingBuffer.getElem?_toList k.sched.ready hpos
    obtain ⟨next, rest, hlist⟩ := List.exists_cons_of_ne_nil h
    rw [hlist, List.getElem?_cons_zero, Option.some.injEq] at hhead
    refine ⟨next, k.sched.ready.removeAt 0 hpos, ?_, ?_⟩
    · rw [RingBuffer.toList_removeAt _ hpos hpos, hlist, List.eraseIdx_cons_zero]
    · simp only [schedulerPickNext, hpol, schedulerDequeueSjf, dif_pos hpos, hfirst]
      rw [if_neg (by decide), hhead]
      rfl
  · obtain ⟨next, ready, -, hfifo, hres⟩ := schedulerPickNext_spec h
    exact ⟨next, ready, hfifo hpol, hres⟩

/-- The outcomes of a scheduling call that takes the head of the queue. -/
inductive HeadOutcome (k : Kernel) (context : ProcessContext) (requeue : Bool)
    (contextId : StatContext) : Int × Kernel × ProcessContext → Prop
  | refused (hreq : requeue = true) (hfull : k.sched.ready.len = readyQueueCapacity) :
      HeadOutcome k context requeue contextId
        (0, (k.saved context requeue).setPcb k.sched.currentPcb
          { outgoing k.current context requeue k.pitTicks with state := .running }, context)
  | alone (hreq : requeue = false) (hempty : k.sched.ready.toList = []) :
      HeadOutcome k context requeue contextId
        (0, (k.saved context requeue).setPcb k.sched.currentPcb
          { outgoing k.current context requeue k.pitTicks with state := .running }, context)
  | switch {next : Nat} {ready : RingBuffer Nat readyQueueCapacity}
      (hroom : requeue = true → k.sched.ready.len < readyQueueCapacity)
      (hhead : k.candidates requeue = next :: ready.toList) :
      HeadOutcome k context requeue contextId
        (1, ({ k.saved context requeue with
            sched := { (k.saved context requeue).sched with ready := ready } } : Kernel).switched
              k.sched.currentPcb next contextId,
          { (incoming ((k.saved context requeue).pcbs next) k.pitTicks).context with
            eflags :=
              (incoming ((k.saved context requeue).pcbs next) k.pitTicks).context.eflags ||| 0x200 })

/-- A burst of one tick keeps a prediction of one tick. -/
theorem outgoing_level {b : Pcb} {now : Nat} (hpred : b.predictedBurst = 1)
    (hone : elapsedTicks now b.lastDispatchTick = 1) (c : ProcessContext) :
    (outgoing b c true now).state = .ready ∧ (outgoing b c true now).predictedBurst = 1 := by
  have hlast : (savedIn c b).lastDispatchTick = b.lastDispatchTick := rfl
  have hsaved : (savedIn c b).predictedBurst = 1 := hpred
  unfold outgoing schedulerUpdateBurstPrediction
  simp only [if_true, hlast, hone, hsaved]
  exact ⟨trivial, rfl⟩

/-- The processes among which a scheduling call picks have a prediction of one tick. -/
theorem Level.candidates {last : Nat} (h : Level last k) (hnodup : k.members.Nodup)
    (hone : elapsedTicks k.pitTicks last = 1) (c : ProcessContext) {requeue : Bool}
    (hroom : requeue = true → k.sched.ready.len < readyQueueCapacity) :
    ∀ p ∈ k.candidates requeue, ((k.saved c requeue).pcbs p).state = .ready ∧
      ((k.saved c requeue).pcbs p).predictedBurst = 1 := by
  intro p hp
  rcases List.mem_append.1 hp with hp | hp
  · have hne : p ≠ k.sched.currentPcb := fun heq => (List.nodup_cons.1 hnodup).1 (heq ▸ hp)
    simp only [saved, Function.update_of_ne hne]
    exact h.ready p hp
  · cases requeue with
    | false => cases hp
    | true =>
        obtain rfl := List.mem_singleton.1 hp
        have hlen := hroom rfl
        obtain ⟨hpred, hlast⟩ := h.current.resolve_left (by omega)
        simp only [saved, Function.update_self]
        exact outgoing_level hpred (hlast ▸ hone) c

/-- With level predictions and no slice left, a scheduling call takes the head of the queue. -/
theorem schedule_head {last : Nat} (h : Level last k) (hnodup : k.members.Nodup)
    (hz : 0 ∉ k.members) (hone : elapsedTicks k.pitTicks last = 1) (c : ProcessContext)
    (requeue : Bool) (id : StatContext) :
    HeadOutcome k c requeue id (k.schedulerScheduleFromContext c requeue id) := by
  have hcur : k.sched.currentPcb ≠ 0 := fun heq => hz (heq ▸ k.current_mem)
  have hnot : requeue = true →
      ¬ (k.sched.schedulingPolicy = .rr ∧ k.sched.remainingTicks > 1) := by
    rintro - ⟨hrr, hleft⟩
    have := (h.slice hrr).2
    omega
  rw [schedule_eq_afterSave c id hcur hnot]
  have hblock : (k.saved c requeue).pcbs k.sched.currentPcb =
      outgoing k.current c requeue k.pitTicks := Function.update_self ..
  -- Picking from a queue of equal predictions ends in a switch to its head.
  have hpick : ∀ ready : RingBuffer Nat readyQueueCapacity,
      ready.toList = k.candidates requeue → ready.toList ≠ [] →
      (requeue = true → k.sched.ready.len < readyQueueCapacity) →
      (if requeue then (k.saved c requeue).schedulerEnqueueReady k.sched.currentPcb
        else some (k.saved c requeue)) =
          some { k.saved c requeue with
            sched := { (k.saved c requeue).sched with ready := ready } } →
      HeadOutcome k c requeue id
        ((k.saved c requeue).afterSave k.sched.currentPcb c requeue id) := by
    intro ready hready hne hroom henq
    have hnonzero : ∀ p ∈ k.candidates requeue, p ≠ 0 := by
      rintro p hp rfl
      rcases List.mem_append.1 hp with hp | hp
      · exact hz (List.mem_cons_of_mem _ hp)
      · cases requeue with
        | false => cases hp
        | true => exact hcur (List.mem_singleton.1 hp).symm
    obtain ⟨next, ready', hlist, hres⟩ := schedulerPickNext_head
      (k := { k.saved c requeue with
        sched := { (k.saved c requeue).sched with ready := ready } }) hne fun _ p hp => by
      obtain ⟨hstate, hpred⟩ := h.candidates hnodup hone c hroom p (hready ▸ hp)
      rw [predictedBurstForSjf_eq _ (hnonzero p (hready ▸ hp)), sjfKey, hpred,
        if_pos ⟨hstate, by decide⟩]
    simp only [hready] at hlist
    have hnext : next ≠ 0 := hnonzero next (hlist ▸ List.mem_cons_self)
    simp only [afterSave, henq, hres]
    rw [if_neg hnext, dispatch_eq _ _ hnext]
    exact .switch hroom hlist
  cases requeue with
  | false =>
      by_cases hempty : k.sched.ready.toList = []
      · have hres := schedulerPickNext_empty (k := k.saved c false) hempty
        simp only [afterSave, hres, Bool.false_eq_true, if_false, if_true, hblock]
        exact .alone rfl hempty
      · exact hpick k.sched.ready (by simp [Kernel.candidates]) hempty (fun h => by cases h) rfl
  | true =>
      rcases schedulerEnqueueReady_cases (k.saved c true) hcur with
        ⟨hroom, ready, hready, henq⟩ | ⟨hfull, henq⟩
      · exact hpick ready hready (by rw [hready]; simp) (fun _ => hroom) henq
      · simp only [afterSave, henq, if_true, hblock]
        exact .refused rfl hfull

/-! ## Predictions stay level -/

/-- A dispatch sets the time of the dispatch and leaves the prediction. -/
@[simp]
theorem incoming_burst (b : Pcb) (now : Nat) :
    (incoming b now).predictedBurst = b.predictedBurst ∧
      (incoming b now).lastDispatchTick = now := by
  unfold incoming schedulerInitContextFromPcb
  split
  · exact ⟨rfl, rfl⟩
  · exact ⟨rfl, rfl⟩

/-- Level predictions depend on the scheduler and on the control blocks of its processes. -/
theorem Level.congr {last : Nat} (h : Level last k) (hsched : k'.sched = k.sched)
    (hticks : k'.pitTicks < 2 ^ 32)
    (hpcbs : ∀ p ∈ k.members, (k'.pcbs p).predictedBurst = (k.pcbs p).predictedBurst ∧
      (k'.pcbs p).lastDispatchTick = (k.pcbs p).lastDispatchTick)
    (hready : ∀ p ∈ k.sched.ready.toList, (k'.pcbs p).state = (k.pcbs p).state) :
    Level last k' := by
  obtain ⟨hpred, hlast⟩ := hpcbs _ k.current_mem
  refine ⟨?_, hticks, ?_, fun p hp => ?_, ?_⟩
  · rw [hsched]
    exact h.preemption
  · rw [hsched]
    exact h.slice
  · rw [hsched] at hp
    rw [hready p hp, (hpcbs p (List.mem_cons_of_mem _ hp)).1]
    exact h.ready p hp
  · rw [Kernel.current, hsched, hpred, hlast]
    exact h.current

/-- A scheduling call keeps the predictions level. -/
theorem Level.schedule {last : Nat} (h : Level last k) (hnodup : k.members.Nodup)
    (hz : 0 ∉ k.members) (hone : elapsedTicks k.pitTicks last = 1) {c out : ProcessContext}
    {requeue : Bool} {id : StatContext} {code : Int}
    (hrun : k.schedulerScheduleFromContext c requeue id = (code, k', out))
    (hkept : requeue = false → k.pitTicks = last) : Level k'.pitTicks k' := by
  have hhead := schedule_head h hnodup hz hone c requeue id
  rw [hrun] at hhead
  have hout : ∀ p ∈ k.sched.ready.toList, p ≠ k.sched.currentPcb := fun p hp heq =>
    (List.nodup_cons.1 hnodup).1 (heq ▸ hp)
  -- The slice of a call that ends in the part after the check is full again.
  have hslice : ∀ s : Scheduler, s.schedulingPolicy = k.sched.schedulingPolicy →
      s.quantumTicks = k.sched.quantumTicks → (s.schedulingPolicy = .rr →
        s.remainingTicks = k.sched.quantumTicks ∨ s.remainingTicks = k.sched.remainingTicks) →
      s.schedulingPolicy = .rr → s.quantumTicks = 1 ∧ s.remainingTicks ≤ 1 := by
    intro s hpolicy hquantum hleft hrr
    obtain ⟨hq, hr⟩ := h.slice (hpolicy ▸ hrr)
    rcases hleft hrr with hleft | hleft
    · omega
    · omega
  cases hhead with
  | refused hreq hfull =>
      subst hreq
      refine ⟨h.preemption, h.ticks, hslice _ rfl rfl fun hrr => .inl ?_, fun p hp => ?_, .inl hfull⟩
      · exact if_pos ⟨hrr, rfl⟩
      · rw [stayed_pcbs, if_neg (hout p hp)]
        exact h.ready p hp
  | alone hreq hempty =>
      subst hreq
      refine ⟨h.preemption, h.ticks, hslice _ rfl rfl fun _ => .inr ?_, fun p hp => ?_, .inr ?_⟩
      · exact if_neg fun hcond => Bool.noConfusion hcond.2
      · rw [stayed_pcbs, if_neg (hout p hp)]
        exact h.ready p hp
      · have hlen : k.sched.ready.len = 0 := by
          rw [← k.sched.ready.length_toList, hempty, List.length_nil]
        obtain ⟨hpred, hlast⟩ := h.current.resolve_left (by rw [hlen]; decide)
        change (((k.saved c false).setPcb k.sched.currentPcb _).pcbs k.sched.currentPcb).predictedBurst
          = 1 ∧ (((k.saved c false).setPcb k.sched.currentPcb _).pcbs
            k.sched.currentPcb).lastDispatchTick = k.pitTicks
        rw [stayed_pcbs, if_pos rfl]
        exact ⟨hpred, hlast.trans (hkept rfl).symm⟩
  | @switch next ready hroom hlist =>
      have hlevel := h.candidates hnodup hone c hroom
      rw [hlist] at hlevel
      have hnodup' : (next :: ready.toList).Nodup := by
        rw [← hlist]
        cases requeue with
        | false =>
            rw [Kernel.candidates, if_neg Bool.false_ne_true, List.append_nil]
            exact (List.nodup_cons.1 hnodup).2
        | true => exact (List.perm_append_singleton _ _).nodup_iff.2 hnodup
      refine ⟨h.preemption, h.ticks, hslice _ rfl rfl fun hrr => .inl ?_, fun p hp => ?_, .inr ?_⟩
      · exact if_pos hrr
      · have hne : p ≠ next := fun heq => (List.nodup_cons.1 hnodup').1 (heq ▸ hp)
        have hsame : (({ k.saved c requeue with
            sched := { (k.saved c requeue).sched with ready := ready } } : Kernel).switched
              k.sched.currentPcb next id).pcbs p = (k.saved c requeue).pcbs p :=
          Function.update_of_ne hne _ _
        rw [hsame]
        exact hlevel p (List.mem_cons_of_mem _ hp)
      · have hnext : (({ k.saved c requeue with
            sched := { (k.saved c requeue).sched with ready := ready } } : Kernel).switched
              k.sched.currentPcb next id).current =
            incoming ((k.saved c requeue).pcbs next) k.pitTicks := Function.update_self ..
        rw [hnext]
        exact ⟨(incoming_burst _ _).1.trans (hlevel next List.mem_cons_self).2,
          (incoming_burst _ _).2⟩

/-- A burst from one tick to the next is one tick long, also when the counter wraps. -/
theorem elapsedTicks_tick (hticks : k.pitTicks < 2 ^ 32) :
    elapsedTicks k.tick.pitTicks k.pitTicks = 1 := by
  unfold elapsedTicks tick u32
  simp only
  split_ifs
  all_goals omega

/-- A slice without a tick counts as one. -/
theorem elapsedTicks_self (now : Nat) : elapsedTicks now now = 1 := by
  unfold elapsedTicks
  simp

/-- Predictions stay level over a tick. -/
theorem Level.tick {last : Nat} (h : Level last k) : Level last k.tick :=
  h.congr rfl (Nat.mod_lt _ (by norm_num)) (fun _ _ => ⟨rfl, rfl⟩) fun _ _ => rfl

/-- Predictions stay level when a process is marked as terminated. -/
theorem Level.markTerminated {last : Nat} (h : Level last k) (hnodup : k.members.Nodup) :
    Level last k.markTerminated := by
  refine h.congr rfl h.ticks (fun p hp => ?_) fun p hp => ?_
  · rw [markTerminated_pcbs]
    split
    · rename_i hpc
      rw [hpc]
      exact ⟨rfl, rfl⟩
    · exact ⟨rfl, rfl⟩
  · have hne : p ≠ k.sched.currentPcb := fun heq => (List.nodup_cons.1 hnodup).1 (heq ▸ hp)
    rw [markTerminated_pcbs, if_neg hne]

/-- The processes of the kernel keep level predictions through an event. -/
theorem Level.step (h : Level k.pitTicks k) (hinv : Inv L R safe k) {e : Event}
    (hring : e.FromRing3) (hstep : k.Step L safe e k') : Level k'.pitTicks k' := by
  have hnodup := hinv.members_nodup
  have hz := hinv.zero_notMem
  have hout : ∀ p ∈ k.sched.ready.toList, p ≠ k.sched.currentPcb := fun p hp heq =>
    (List.nodup_cons.1 hnodup).1 (heq ▸ hp)
  cases hstep with
  | @write va byte k' hsafe hw =>
      obtain ⟨i, j, f, hpage⟩ := hinv.writePage hsafe hw
      rw [hpage.kernel]
      exact h.congr rfl h.ticks (fun _ _ => ⟨rfl, rfl⟩) fun _ _ => rfl
  | @trap t out k' ht =>
      obtain ⟨-, hserved⟩ := hinv.served ht
      cases hserved with
      | quiet hquiet => exact absurd ⟨h.preemption, hring⟩ hquiet
      | @requeued t k₁ k' id code out call hrun =>
          cases call with
          | timer henabled hring =>
              exact h.tick.schedule hnodup hz (elapsedTicks_tick h.ticks) hrun
                fun hreq => Bool.noConfusion hreq
          | yield hring hnumber =>
              exact h.schedule hnodup hz (elapsedTicks_self _) hrun fun _ => rfl
      | kept hring hnumber => exact h
      | gaveUp hring hnumber aside counter log =>
          have hready : k'.sched.ready = k.sched.ready := by rw [aside.sched]
          rw [aside.pitTicks]
          refine ⟨?_, aside.pitTicks ▸ h.ticks, ?_, fun p hp => ?_, ?_⟩
          · rw [aside.sched]
            exact h.preemption
          · rw [aside.sched]
            exact h.slice
          · rw [hready] at hp
            rw [aside.pcbs p (mem_holders (List.mem_cons_of_mem _ hp))]
            exact h.ready p hp
          · rw [hready, aside.current]
            exact h.current
      | executed hring hnumber executed log =>
          rw [executed.pitTicks]
          refine h.congr executed.sched (executed.pitTicks ▸ h.ticks) (fun p hp => ?_) fun p hp => ?_
          · rcases List.mem_cons.1 hp with rfl | hp
            · have hpcb := executed.pcb
              rw [Kernel.current, executed.sched] at hpcb
              rw [hpcb]
              exact ⟨rfl, rfl⟩
            · rw [executed.others p (hout p hp)]
              exact ⟨rfl, rfl⟩
          · rw [executed.others p fun heq => (List.nodup_cons.1 hnodup).1 (heq ▸ hp)]
      | @forked frame kernelByte child d base k' hring hnumber forked log =>
          have hcur : k'.current = k.current := by
            have hsame : k'.sched.currentPcb = k.sched.currentPcb := by rw [forked.sched]
            rw [Kernel.current, hsame, forked.others _ (mem_holders k.current_mem)]
            rfl
          have hlen : k.sched.ready.len < readyQueueCapacity := by
            have hnew := k'.sched.ready.length_toList
            have hle := k'.sched.ready.len_le
            rw [forked.ready, List.length_append, RingBuffer.length_toList,
              List.length_singleton] at hnew
            omega
          obtain ⟨hpred, hlast⟩ := h.current.resolve_left (by omega)
          rw [forked.pitTicks]
          refine ⟨?_, forked.pitTicks ▸ h.ticks, ?_, fun p hp => ?_, ?_⟩
          · rw [forked.sched]
            exact h.preemption
          · rw [forked.sched]
            exact h.slice
          · rw [forked.ready] at hp
            rcases List.mem_append.1 hp with hp | hp
            · rw [forked.others p (mem_holders (List.mem_cons_of_mem _ hp))]
              exact h.ready p hp
            · obtain rfl := List.mem_singleton.1 hp
              rw [forked.pcb]
              exact ⟨rfl, hpred⟩
          · rw [hcur]
            exact .inr ⟨hpred, hlast⟩
      | @left frame kernelByte code k₂ out hring hnumber hrun =>
          have hafter := (h.markTerminated hnodup).schedule hnodup hz (elapsedTicks_self _) hrun fun _ => rfl
          split
          · exact hafter.congr rfl hafter.ticks (fun _ _ => ⟨rfl, rfl⟩) fun _ _ => rfl
          · exact hafter.congr rfl hafter.ticks (fun _ _ => ⟨rfl, rfl⟩) fun _ _ => rfl

/-! ## The calls that do not pick -/

/-- Equal queues have equal lengths. -/
theorem SameQueue.len {s s' : Scheduler} (h : SameQueue s s') : s'.ready.len = s.ready.len := by
  rw [← s'.ready.length_toList, h.ready, s.ready.length_toList]

/-- The kernels are alike in everything but the scheduler. -/
theorem SameButPolicy.views (h : SameButPolicy k k') :
    k'.pcbs = k.pcbs ∧ k'.store = k.store ∧ k'.pitTicks = k.pitTicks ∧ k'.modules = k.modules ∧
      k'.idle = k.idle ∧ SameQueue k.sched k'.sched := by
  obtain ⟨hq⟩ := h
  exact ⟨rfl, rfl, rfl, rfl, rfl, hq⟩

/-- No policy decides which pid is next. -/
theorem SameButPolicy.schedulerAllocatePid (h : SameButPolicy k k') :
    SameResult k.schedulerAllocatePid k'.schedulerAllocatePid := by
  obtain ⟨hq⟩ := h
  have hnext : pidAfter (k.withSched _).sched.nextPid = pidAfter k.sched.nextPid :=
    congrArg pidAfter hq.nextPid
  exact ⟨hq.nextPid, .intro ⟨hq.currentPcb, hq.preemption, hnext, hq.ready⟩⟩

/-- Two queues with the same processes refuse a process together. -/
theorem SameButPolicy.schedulerEnqueueReady (h : SameButPolicy k k') {p : Nat} (hp : p ≠ 0) :
    Option.Rel SameButPolicy (k.schedulerEnqueueReady p) (k'.schedulerEnqueueReady p) := by
  obtain ⟨hq⟩ := h
  rename_i s
  have hlen : (k.withSched s).sched.ready.len = k.sched.ready.len := hq.len
  rcases schedulerEnqueueReady_cases k hp with ⟨hroom, ready, hlist, henq⟩ | ⟨hfull, henq⟩
  · rcases schedulerEnqueueReady_cases (k.withSched s) hp with
      ⟨hroom', ready', hlist', henq'⟩ | ⟨hfull', henq'⟩
    · rw [henq, henq']
      refine .some (.intro ⟨hq.currentPcb, hq.preemption, hq.nextPid, ?_⟩)
      exact hlist'.trans ((congrArg (· ++ [p]) hq.ready).trans hlist.symm)
    · omega
  · rcases schedulerEnqueueReady_cases (k.withSched s) hp with
      ⟨hroom', ready', hlist', henq'⟩ | ⟨hfull', henq'⟩
    · omega
    · rw [henq, henq']
      exact .none

/-- No policy decides where a kernel stack lies. -/
theorem SameButPolicy.allocKernelStack (h : SameButPolicy k k') (p : Nat) :
    SameResult (k.allocKernelStack L p) (k'.allocKernelStack L p) := by
  obtain ⟨hq⟩ := h
  rename_i s
  have hstore : (k.withSched s).store = k.store := rfl
  unfold Kernel.allocKernelStack
  rw [hstore]
  generalize k.store.kmalloc L kernelStackSize = r
  obtain ⟨kstack, store⟩ := r
  by_cases hzero : kstack = 0
  · simp only [if_pos hzero]
    exact ⟨rfl, .intro hq⟩
  · simp only [if_neg hzero]
    exact ⟨rfl, .intro hq⟩

/-- A child joins the queue of both kernels or of neither. -/
theorem SameButPolicy.forkEnqueue (h : SameButPolicy k k') (frame : SyscallFrame)
    {child : Nat} (hchild : child ≠ 0) (pid pdt : Nat) :
    SameResult (k.forkEnqueue frame child pid pdt) (k'.forkEnqueue frame child pid pdt) := by
  obtain ⟨hq⟩ := h
  rename_i s
  have hset : SameButPolicy (k.setPcb child (childReady (k.pcbs child) frame pdt))
      ((k.withSched s).setPcb child (childReady ((k.withSched s).pcbs child) frame pdt)) :=
    .intro hq
  have henq := hset.schedulerEnqueueReady hchild
  unfold Kernel.forkEnqueue
  simp only
  generalize (k.setPcb child _).schedulerEnqueueReady child = r at henq
  generalize ((k.withSched s).setPcb child _).schedulerEnqueueReady child = r' at henq
  cases henq with
  | none => exact ⟨rfl, .intro hq⟩
  | some hsome =>
      obtain ⟨hq'⟩ := hsome
      exact ⟨rfl, .intro hq'⟩

/-- The same work on the store and on the control blocks. -/
theorem SameButPolicy.work (h : SameButPolicy k k') (f : Store → Store)
    (g : (Nat → Pcb) → Nat → Pcb) :
    SameButPolicy { k with store := f k.store, pcbs := g k.pcbs }
      { k' with store := f k'.store, pcbs := g k'.pcbs } := by
  obtain ⟨hq⟩ := h
  exact .intro hq

/-- A fork goes on in the same way from its kernel stack on. -/
theorem SameButPolicy.forkStack (h : SameButPolicy k k') (frame : SyscallFrame)
    {child : Nat} (hchild : child ≠ 0) (pid pdt : Nat) :
    SameResult (k.forkStack L frame child pid pdt) (k'.forkStack L frame child pid pdt) := by
  obtain ⟨hok, hstack⟩ := h.allocKernelStack (L := L) child
  unfold Kernel.forkStack
  simp only
  rw [hok]
  split
  · exact ⟨rfl, hstack.work (fun s => { s with mem := s.mem.destroyUserSpace pdt }.kfree child) id⟩
  · exact hstack.forkEnqueue frame hchild pid pdt

/-- A fork goes on in the same way from its copy of the space on. -/
theorem SameButPolicy.forkSpace (h : SameButPolicy k k') (frame : SyscallFrame)
    {child : Nat} (hchild : child ≠ 0) (pid : Nat) :
    SameResult (k.forkSpace L frame child pid) (k'.forkSpace L frame child pid) := by
  obtain ⟨hq⟩ := h
  rename_i s
  have hspace : (k.withSched s).store.mem.cloneUserSpace (k.withSched s).current.pdt =
      k.store.mem.cloneUserSpace k.current.pdt := by
    rw [current, show (k.withSched s).sched.currentPcb = _ from hq.currentPcb]
    rfl
  unfold Kernel.forkSpace
  rw [hspace]
  generalize k.store.mem.cloneUserSpace k.current.pdt = r
  obtain ⟨pdt, m⟩ := r
  by_cases hzero : pdt = 0
  · simp only [if_pos hzero]
    exact ⟨rfl, .intro hq⟩
  · simp only [if_neg hzero]
    exact SameButPolicy.forkStack (k := k.withMem m) (.intro hq) frame hchild pid pdt

/-- Forks return the same and leave the same. -/
theorem SameButPolicy.sysFork (h : SameButPolicy k k') (frame : SyscallFrame) :
    SameResult (k.sysFork L frame) (k'.sysFork L frame) := by
  obtain ⟨hq⟩ := h
  rename_i s
  have hcur : (k.withSched s).sched.currentPcb = k.sched.currentPcb := hq.currentPcb
  have hstore : (k.withSched s).store = k.store := rfl
  unfold Kernel.sysFork
  rw [hcur, hstore]
  generalize k.store.kmalloc L sizeofPcb = r
  obtain ⟨child, store⟩ := r
  by_cases hzero : k.sched.currentPcb = 0
  · simp only [if_pos hzero]
    exact ⟨rfl, .intro hq⟩
  · simp only [if_neg hzero]
    by_cases hchild : child = 0
    · simp only [if_pos hchild]
      exact ⟨rfl, .intro hq⟩
    · simp only [if_neg hchild]
      have hstored : SameButPolicy { k with store := store } { k.withSched s with store := store } :=
        .intro hq
      obtain ⟨hpid, hrest⟩ := hstored.schedulerAllocatePid
      generalize Kernel.schedulerAllocatePid _ = r' at hpid hrest
      generalize Kernel.schedulerAllocatePid _ = r at hpid hrest
      rw [hpid]
      exact (hrest.work id fun pcbs => Function.update pcbs child
        (childPcb (pcbs k.sched.currentPcb) r.1)).forkSpace frame hchild r.1

/-- Execs of the same range return the same and leave the same. -/
theorem SameButPolicy.execModule (h : SameButPolicy k k') (frame : SyscallFrame) (a b : Nat) :
    SameReply (k.execModule frame a b) (k'.execModule frame a b) := by
  obtain ⟨hq⟩ := h
  rename_i s
  have hcur : (k.withSched s).sched.currentPcb = k.sched.currentPcb := hq.currentPcb
  have hmem : (k.withSched s).store.mem = k.store.mem := rfl
  unfold Kernel.execModule
  rw [hcur, hmem]
  by_cases hzero : k.sched.currentPcb = 0
  · simp only [if_pos hzero]
    exact ⟨rfl, rfl, .intro hq⟩
  · simp only [if_neg hzero]
    generalize k.store.mem.buildNewImage a b = r
    obtain ⟨image, m⟩ := r
    cases image with
    | none => exact ⟨rfl, rfl, .intro hq⟩
    | some image => exact ⟨rfl, rfl, .intro hq⟩

/-- The last part of {lit}`create_pcb` asks for no policy. -/
theorem SameButPolicy.createStack (h : SameButPolicy k k') (pcb pdt : Nat) :
    SameResult (k.createStack L pcb pdt) (k'.createStack L pcb pdt) := by
  obtain ⟨hok, hstack⟩ := h.allocKernelStack (L := L) pcb
  unfold Kernel.createStack
  simp only
  rw [hok]
  split
  · exact ⟨rfl, hstack.work (fun s => { s with mem := s.mem.pfaFree pdt }.kfree pcb) id⟩
  · exact ⟨rfl, hstack⟩

/-- Nor does its part from the directory on. -/
theorem SameButPolicy.createSpace (h : SameButPolicy k k') (pcb pid : Nat) :
    SameResult (k.createSpace L pcb pid) (k'.createSpace L pcb pid) := by
  have hstore : k'.store = k.store := h.views.2.1
  unfold Kernel.createSpace
  rw [hstore]
  generalize k.store.mem.allocPageTable = r
  obtain ⟨pdt, m⟩ := r
  by_cases hzero : pdt = 0
  · simp only [if_pos hzero]
    exact ⟨rfl, h.work (fun s => { s with mem := m }.kfree pcb) id⟩
  · simp only [if_neg hzero]
    exact (h.work (fun s => { s with mem := m.pokeWord pdt 768 (m.pageDirectory 768) })
      fun pcbs => Function.update pcbs pcb (freshPcb pid pdt)).createStack pcb pdt

/-- Nor does {lit}`create_pcb`. -/
theorem SameButPolicy.createPcb (h : SameButPolicy k k') :
    SameResult (k.createPcb L) (k'.createPcb L) := by
  have hstore : k'.store = k.store := h.views.2.1
  unfold Kernel.createPcb
  rw [hstore]
  generalize k.store.kmalloc L sizeofPcb = r
  obtain ⟨pcb, store⟩ := r
  by_cases hzero : pcb = 0
  · simp only [if_pos hzero]
    exact ⟨rfl, h.work (fun _ => store) id⟩
  · simp only [if_neg hzero]
    have hstored : SameButPolicy { k with store := store } { k' with store := store } :=
      h.work (fun _ => store) id
    obtain ⟨hpid, hrest⟩ := hstored.schedulerAllocatePid
    generalize Kernel.schedulerAllocatePid _ = r' at hpid hrest
    generalize Kernel.schedulerAllocatePid _ = r at hpid hrest
    rw [hpid]
    exact hrest.createSpace pcb r.1

/-- Nor does the making of a process from a module. -/
theorem SameButPolicy.createPcbGrubModules (h : SameButPolicy k k') (a b : Nat) :
    Option.Rel SameResult (k.createPcbGrubModules L a b) (k'.createPcbGrubModules L a b) := by
  obtain ⟨hpcb, hmade⟩ := h.createPcb (L := L)
  unfold Kernel.createPcbGrubModules
  generalize k.createPcb L = r at hpcb hmade
  generalize k'.createPcb L = r' at hpcb hmade
  obtain ⟨pcb, kk⟩ := r
  obtain ⟨pcb', kk'⟩ := r'
  simp only at hpcb hmade
  subst hpcb
  obtain ⟨hpcbs, hstore, -⟩ := hmade.views
  by_cases hzero : pcb' = 0
  · simp only [if_pos hzero]
    exact .some ⟨rfl, hmade⟩
  · simp only [if_neg hzero, hpcbs, hstore]
    generalize kk.store.mem.loadModule (kk.pcbs pcb').pdt a b = loaded
    cases loaded with
    | none => exact .none
    | some m =>
        exact .some ⟨rfl, hmade.work (fun s => { s with mem := m }) fun pcbs =>
          Function.update pcbs pcb' { kk.pcbs pcb' with esp := 0xBFFFFFFB }⟩

/-- A pass of the loop of boot is the same under both policies. -/
theorem SameButPolicy.bootModule (h : SameButPolicy k k') (first : Nat) (mod : MultibootModule) :
    Option.Rel SameResult (bootModule L (first, k) mod) (bootModule L (first, k') mod) := by
  have hmade := h.createPcbGrubModules (L := L) mod.modStart mod.modEnd
  unfold SoKernel.bootModule
  simp only
  generalize k.createPcbGrubModules L mod.modStart mod.modEnd = r at hmade
  generalize k'.createPcbGrubModules L mod.modStart mod.modEnd = r' at hmade
  cases hmade with
  | none => exact .none
  | @some r r' hsome =>
      obtain ⟨pcb, kk⟩ := r
      obtain ⟨pcb', kk'⟩ := r'
      obtain ⟨hpcb, hsame⟩ := hsome
      simp only at hpcb hsame
      subst hpcb
      have hpcbs : kk'.pcbs = kk.pcbs := hsame.views.1
      by_cases hzero : pcb' = 0
      · simp only [if_pos hzero]
        exact .some ⟨rfl, hsame⟩
      · simp only [if_neg hzero]
        by_cases hfirst : first = 0
        · simp only [if_pos hfirst]
          obtain ⟨hq⟩ := hsame
          exact .some ⟨rfl, .intro hq⟩
        · simp only [if_neg hfirst, hpcbs]
          have hset : SameButPolicy (kk.setPcb pcb' { kk.pcbs pcb' with state := .ready })
              (kk'.setPcb pcb' { kk.pcbs pcb' with state := .ready }) :=
            hsame.work (fun s => s) fun pcbs =>
              Function.update pcbs pcb' { kk.pcbs pcb' with state := .ready }
          have henq := hset.schedulerEnqueueReady hzero
          generalize Kernel.schedulerEnqueueReady _ pcb' = r at henq
          generalize Kernel.schedulerEnqueueReady _ pcb' = r' at henq
          cases henq with
          | none =>
              obtain ⟨hq⟩ := hsame
              exact .some ⟨rfl, .intro hq⟩
          | some hsome =>
              obtain ⟨hq⟩ := hsome
              exact .some ⟨rfl, .intro hq⟩

/-- The loop over the modules runs alike on both sides. -/
theorem SameButPolicy.foldlM (h : SameButPolicy k k') (first : Nat)
    (mods : List MultibootModule) :
    Option.Rel SameResult (mods.foldlM (SoKernel.bootModule L) (first, k))
      (mods.foldlM (SoKernel.bootModule L) (first, k')) := by
  induction mods generalizing first k k' with
  | nil => exact .some ⟨rfl, h⟩
  | cons mod mods ih =>
      rw [List.foldlM_cons, List.foldlM_cons]
      have hpass := h.bootModule (L := L) first mod
      generalize SoKernel.bootModule L (first, k) mod = r at hpass
      generalize SoKernel.bootModule L (first, k') mod = r' at hpass
      cases hpass with
      | none => exact .none
      | @some r r' hsome =>
          obtain ⟨first', kk⟩ := r
          obtain ⟨first'', kk'⟩ := r'
          obtain ⟨hfirst, hsame⟩ := hsome
          simp only at hfirst hsame
          subst hfirst
          exact ih hsame _

/-- The first process starts in the same way. -/
theorem SameButPolicy.runUserModeModule (h : SameButPolicy k k') {p : Nat} (hp : p ≠ 0) :
    SameButPolicy (k.runUserModeModule p) (k'.runUserModeModule p) := by
  obtain ⟨hq⟩ := h
  rw [runUserModeModule_eq _ hp, runUserModeModule_eq _ hp]
  exact .intro ⟨rfl, hq.preemption, hq.nextPid, hq.ready⟩

/-- The same boot under another policy ends in the same kernel but for the policy. -/
theorem kmain_policy (hboot : kmain L B = some k₀) (policy : SchedulingPolicy) (quantum : Nat) :
    ∃ k₀', kmain L { B with policy := policy, quantum := quantum } = some k₀' ∧
      SameButPolicy k₀ k₀' := by
  have hstart : SameButPolicy (bootKernel L B)
      (bootKernel L { B with policy := policy, quantum := quantum }) :=
    .intro ⟨rfl, rfl, rfl, rfl⟩
  have hloop := hstart.foldlM (L := L) 0 B.mods
  unfold kmain at hboot ⊢
  simp only
  generalize B.mods.foldlM (SoKernel.bootModule L) (0, bootKernel L B) = r at hloop hboot
  generalize B.mods.foldlM (SoKernel.bootModule L)
    (0, bootKernel L { B with policy := policy, quantum := quantum }) = r' at hloop
  cases hloop with
  | none => cases hboot
  | @some r r' hsome =>
      obtain ⟨hfirst, hsame⟩ := hsome
      simp only at hboot ⊢
      rw [hfirst]
      split at hboot
      · cases hboot
      · rename_i hne
        rw [Option.some.injEq] at hboot
        rw [if_neg hne, ← hboot]
        exact ⟨_, rfl, hsame.runUserModeModule hne⟩

/-! ## The calls that pick -/

/-- The current process is saved in the same way. -/
theorem SameButPolicy.saved (h : SameButPolicy k k') (c : ProcessContext) (requeue : Bool) :
    SameButPolicy (k.saved c requeue) (k'.saved c requeue) := by
  obtain ⟨hq⟩ := h
  rename_i s
  have hcur : (k.withSched s).sched.currentPcb = k.sched.currentPcb := hq.currentPcb
  unfold Kernel.saved current
  rw [hcur]
  exact .intro ⟨hq.currentPcb, hq.preemption, hq.nextPid, hq.ready⟩

/-- The same process taken out of the same queue. -/
theorem SameButPolicy.switched (h : SameButPolicy k k')
    {ready ready' : RingBuffer Nat readyQueueCapacity} (hready : ready'.toList = ready.toList)
    (current next : Nat) (id : StatContext) :
    SameButPolicy
      (({ k with sched := { k.sched with ready := ready } } : Kernel).switched current next id)
      (({ k' with sched := { k'.sched with ready := ready' } } : Kernel).switched current next id) := by
  obtain ⟨hq⟩ := h
  exact .intro ⟨rfl, hq.preemption, hq.nextPid, hready⟩

/-- With level predictions on both sides, a scheduling call picks the same process. -/
theorem SameButPolicy.schedule {last : Nat} (h : SameButPolicy k k') (hl : Level last k)
    (hl' : Level last k') (hnodup : k.members.Nodup) (hz : 0 ∉ k.members)
    (hone : elapsedTicks k.pitTicks last = 1) (c : ProcessContext) (requeue : Bool)
    (id : StatContext) :
    SameReply (k.schedulerScheduleFromContext c requeue id)
      (k'.schedulerScheduleFromContext c requeue id) := by
  obtain ⟨hpcbs, -, hticks, -, -, hq⟩ := h.views
  have hmembers : k'.members = k.members := congrArg₂ List.cons hq.currentPcb hq.ready
  have hcand : k'.candidates requeue = k.candidates requeue :=
    congrArg₂ (fun l p => l ++ if requeue then [p] else []) hq.ready hq.currentPcb
  have hcurrent : k'.current = k.current := by rw [current, hpcbs, hq.currentPcb, current]
  have hsaved := h.saved c requeue
  have hstayed : SameButPolicy ((k.saved c requeue).setPcb k.sched.currentPcb
        { outgoing k.current c requeue k.pitTicks with state := .running })
      ((k'.saved c requeue).setPcb k'.sched.currentPcb
        { outgoing k'.current c requeue k'.pitTicks with state := .running }) := by
    rw [hq.currentPcb, hcurrent, hticks]
    exact hsaved.work (fun s => s) fun pcbs => Function.update pcbs k.sched.currentPcb
      { outgoing k.current c requeue k.pitTicks with state := .running }
  have hhead := schedule_head hl hnodup hz hone c requeue id
  have hhead' := schedule_head hl' (hmembers ▸ hnodup) (hmembers ▸ hz) (hticks ▸ hone) c requeue id
  generalize k.schedulerScheduleFromContext c requeue id = r at hhead
  generalize k'.schedulerScheduleFromContext c requeue id = r' at hhead'
  cases hhead with
  | refused hreq hfull =>
      cases hhead' with
      | refused hreq' hfull' => exact ⟨rfl, rfl, hstayed⟩
      | alone hreq' hempty' => exact Bool.noConfusion (hreq.symm.trans hreq')
      | switch hroom' hlist' =>
          have := hroom' hreq
          rw [hq.len] at this
          omega
  | alone hreq hempty =>
      cases hhead' with
      | refused hreq' hfull' => exact Bool.noConfusion (hreq'.symm.trans hreq)
      | alone hreq' hempty' => exact ⟨rfl, rfl, hstayed⟩
      | switch hroom' hlist' =>
          rw [hcand, Kernel.candidates, hempty, hreq] at hlist'
          cases hlist'
  | @switch next ready hroom hlist =>
      cases hhead' with
      | refused hreq' hfull' =>
          have := hroom hreq'
          rw [hq.len] at hfull'
          omega
      | alone hreq' hempty' =>
          rw [Kernel.candidates, ← hq.ready, hempty', hreq'] at hlist
          cases hlist
      | @switch next' ready' hroom' hlist' =>
          rw [hcand, hlist] at hlist'
          obtain ⟨rfl, hready⟩ := List.cons_eq_cons.1 hlist'
          refine ⟨rfl, ?_, ?_⟩
          · rw [hticks, hsaved.views.1]
          · rw [hq.currentPcb]
            exact hsaved.switched hready.symm k.sched.currentPcb next id

/-- Marking the current process as terminated is the same under both policies. -/
theorem SameButPolicy.markTerminated (h : SameButPolicy k k') :
    SameButPolicy k.markTerminated k'.markTerminated := by
  obtain ⟨hq⟩ := h
  rename_i s
  have hcur : (k.withSched s).sched.currentPcb = k.sched.currentPcb := hq.currentPcb
  unfold Kernel.markTerminated
  rw [hcur]
  exact .intro hq

/-- Execs find the same module. -/
theorem SameButPolicy.sysExec (h : SameButPolicy k k') (kernelByte : Nat → Option UInt8)
    (frame : SyscallFrame) :
    Option.Rel SameReply (k.sysExec kernelByte frame) (k'.sysExec kernelByte frame) := by
  obtain ⟨-, hstore, -, hmodules, -, -⟩ := h.views
  unfold Kernel.sysExec
  rw [hstore, hmodules]
  generalize copyUserString (k.store.mem.readVirtual kernelByte) frame.ebx execPathMax = path
  cases path with
  | none => exact .none
  | some path =>
      cases path with
      | none => exact .some ⟨rfl, rfl, h⟩
      | some path =>
          simp only
          generalize moduleLoaderFindModuleByPath k.modules path = range
          cases range with
          | none => exact .some ⟨rfl, rfl, h⟩
          | some range => exact .some (h.execModule frame range.1 range.2)

/-- With level predictions a yield switches to the same process. -/
theorem SameButPolicy.sysYield (h : SameButPolicy k k') (hl : Level k.pitTicks k)
    (hl' : Level k.pitTicks k') (hnodup : k.members.Nodup) (hz : 0 ∉ k.members)
    (frame : SyscallFrame) : SameReply (k.sysYield frame) (k'.sysYield frame) := by
  have hrun := h.schedule hl hl' hnodup hz (elapsedTicks_self _) (ProcessContext.ofWords frame.words)
    true .yield
  unfold Kernel.sysYield
  generalize k.schedulerScheduleFromContext _ true .yield = r at hrun
  generalize k'.schedulerScheduleFromContext _ true .yield = r' at hrun
  obtain ⟨code, k₁, out⟩ := r
  obtain ⟨code', k₁', out'⟩ := r'
  obtain ⟨hcode, hout, hsame⟩ := hrun
  simp only at hcode hout hsame
  subst hcode hout
  simp only
  split
  · exact ⟨rfl, rfl, hsame⟩
  · exact ⟨rfl, rfl, hsame⟩

/-- With level predictions an exit hands over to the same process. -/
theorem SameButPolicy.sysExit (h : SameButPolicy k k') (hl : Level k.pitTicks k.markTerminated)
    (hl' : Level k.pitTicks k'.markTerminated) (hnodup : k.members.Nodup) (hz : 0 ∉ k.members)
    (frame : SyscallFrame) : SameReply (k.sysExit frame) (k'.sysExit frame) := by
  have hmarked := h.markTerminated
  have hrun := hmarked.schedule hl hl' hnodup hz (elapsedTicks_self _)
    (ProcessContext.ofWords frame.words) false .exit
  obtain ⟨hpcbs, -, -, -, -, hq⟩ := hmarked.views
  have hcur : k'.sched.currentPcb = k.sched.currentPcb := h.views.2.2.2.2.2.currentPcb
  have hne : k.sched.currentPcb ≠ 0 := fun heq => hz (heq ▸ k.current_mem)
  unfold Kernel.sysExit
  rw [hcur, if_neg hne, if_neg hne]
  simp only [hpcbs]
  generalize k.markTerminated.schedulerScheduleFromContext _ false .exit = r at hrun
  generalize k'.markTerminated.schedulerScheduleFromContext _ false .exit = r' at hrun
  obtain ⟨code, k₁, out⟩ := r
  obtain ⟨code', k₁', out'⟩ := r'
  obtain ⟨hcode, hout, hsame⟩ := hrun
  simp only at hcode hout hsame
  subst hcode hout
  obtain ⟨hq'⟩ := hsame
  simp only
  split
  · exact ⟨rfl, rfl, .intro hq'⟩
  · exact ⟨rfl, rfl, .intro hq'⟩

/-- A timer interrupt from ring 3 by its scheduling call. -/
theorem timerInterruptHandler_eq {frame : PitIrqFrameUser}
    (hon : k.sched.preemptionEnabled = true) (hring : frame.common.cs &&& 3 = 3) :
    k.timerInterruptHandler frame =
      ((k.tick.schedulerScheduleFromContext (frameUserToContext frame) true .pit).2.1,
        if (k.tick.schedulerScheduleFromContext (frameUserToContext frame) true .pit).1 > 0 then
          frameContextToUser
            (k.tick.schedulerScheduleFromContext (frameUserToContext frame) true .pit).2.2
        else frame) := by
  unfold Kernel.timerInterruptHandler
  simp only
  rw [if_pos ⟨hon, hring⟩]
  rfl

/-- A kernel answers every timer interrupt from ring 3 as the other does. -/
theorem SameButPolicy.timerInterruptHandler (h : SameButPolicy k k') (hl : Level k.pitTicks k)
    (hl' : Level k.pitTicks k') (hnodup : k.members.Nodup) (hz : 0 ∉ k.members)
    {frame : PitIrqFrameUser} (hring : frame.common.cs &&& 3 = 3) :
    (k'.timerInterruptHandler frame).2 = (k.timerInterruptHandler frame).2 ∧
      SameButPolicy (k.timerInterruptHandler frame).1 (k'.timerInterruptHandler frame).1 := by
  have htick : SameButPolicy k.tick k'.tick := by
    obtain ⟨hq⟩ := h
    exact .intro hq
  have hrun := htick.schedule hl.tick hl'.tick hnodup hz (elapsedTicks_tick hl.ticks)
    (frameUserToContext frame) true .pit
  obtain ⟨hcode, hout, hsame⟩ := hrun
  rw [timerInterruptHandler_eq hl.preemption hring, timerInterruptHandler_eq hl'.preemption hring]
  refine ⟨?_, hsame⟩
  simp only [hcode, hout]

/-- A kernel answers every system call as the other does. -/
theorem SameButPolicy.syscallHandler128 (h : SameButPolicy k k') (hl : Level k.pitTicks k)
    (hl' : Level k.pitTicks k') (hnodup : k.members.Nodup) (hz : 0 ∉ k.members)
    (kernelByte : Nat → Option UInt8) (frame : SyscallFrame) :
    Option.Rel (fun r r' => r'.2 = r.2 ∧ SameButPolicy r.1 r'.1)
      (k.syscallHandler128 L kernelByte frame) (k'.syscallHandler128 L kernelByte frame) := by
  have hreply : Option.Rel SameReply (k.syscallDispatcher L kernelByte frame.eax frame)
      (k'.syscallDispatcher L kernelByte frame.eax frame) := by
    unfold syscallDispatcher
    split
    · exact .some ⟨rfl, rfl, h⟩
    · exact .some ⟨rfl, rfl, h⟩
    · exact h.sysExec kernelByte frame
    · obtain ⟨hcode, hsame⟩ := h.sysFork (L := L) frame
      exact .some ⟨hcode, rfl, hsame⟩
    · exact .some (h.sysYield hl hl' hnodup hz frame)
    · have hnodup' : k'.members.Nodup := by
        obtain ⟨-, -, -, -, -, hq⟩ := h.views
        rw [members, hq.currentPcb, hq.ready]
        exact hnodup
      exact .some (h.sysExit (hl.markTerminated hnodup) (hl'.markTerminated hnodup') hnodup hz frame)
    · exact .some ⟨rfl, rfl, h⟩
  unfold Kernel.syscallHandler128
  generalize k.syscallDispatcher L kernelByte frame.eax frame = r at hreply
  generalize k'.syscallDispatcher L kernelByte frame.eax frame = r' at hreply
  cases hreply with
  | none => exact .none
  | some hsome =>
      obtain ⟨hcode, hframe, hsame⟩ := hsome
      refine .some ⟨?_, hsame⟩
      simp only [hcode, hframe]

/-- A kernel answers every trap from ring 3 as the other does. -/
theorem SameButPolicy.trap (h : SameButPolicy k k') (hl : Level k.pitTicks k)
    (hl' : Level k.pitTicks k') (hnodup : k.members.Nodup) (hz : 0 ∉ k.members) {t : Trap}
    (hring : t.FromRing3) {k₁ : Kernel} {out : ProcessContext}
    (ht : k.trap L t = some (k₁, out)) :
    ∃ k₁', k'.trap L t = some (k₁', out) ∧ SameButPolicy k₁ k₁' := by
  obtain ⟨-, -, hticks, -, hidle, hq⟩ := h.views
  unfold Kernel.trap at ht ⊢
  cases t with
  | timer frame =>
      simp only [hidle] at ht ⊢
      split at ht
      · cases ht
      · rename_i hno
        rw [if_neg hno]
        obtain ⟨hframe, hsame⟩ := h.timerInterruptHandler hl hl' hnodup hz hring
        rw [Option.some.injEq, Prod.mk.injEq] at ht
        obtain ⟨rfl, rfl⟩ := ht
        exact ⟨_, by rw [hframe], hsame⟩
  | syscall frame kernelByte =>
      simp only [hidle] at ht ⊢
      split at ht
      · cases ht
      · rename_i hno
        rw [if_neg hno]
        have hreply := h.syscallHandler128 (L := L) hl hl' hnodup hz kernelByte frame
        generalize k.syscallHandler128 L kernelByte frame = r at hreply ht
        generalize k'.syscallHandler128 L kernelByte frame = r' at hreply
        cases hreply with
        | none => cases ht
        | some hsome =>
            obtain ⟨hframe, hsame⟩ := hsome
            rw [Option.map_some, Option.some.injEq, Prod.mk.injEq] at ht
            obtain ⟨rfl, rfl⟩ := ht
            refine ⟨_, ?_, hsame⟩
            simp only [Option.map_some, hframe]

/-! ## Runs -/

/-- A user write that one kernel allows the other one allows too. -/
theorem SameButPolicy.userWrite (h : SameButPolicy k k') {va : Nat} {byte : UInt8} {k₁ : Kernel}
    (hw : k.userWrite va byte = some k₁) :
    ∃ k₁', k'.userWrite va byte = some k₁' ∧ SameButPolicy k₁ k₁' := by
  obtain ⟨-, hstore, -, -, hidle, -⟩ := h.views
  unfold Kernel.userWrite at hw ⊢
  simp only [hstore, hidle] at hw ⊢
  split at hw
  · rename_i hcond
    rw [Option.some.injEq] at hw
    subst hw
    rw [if_pos hcond]
    obtain ⟨hq⟩ := h
    exact ⟨_, rfl, .intro hq⟩
  · cases hw

/-- Predictions are level after boot, whatever the policy, if a slice is one tick long. -/
theorem level_start (hboot : kmain L B = some k₀)
    (hslice : B.policy = .rr → quantumOf B.quantum = 1) : Level k₀.pitTicks k₀ := by
  have hstarted := kmain_started hboot
  refine ⟨hstarted.preemption, ?_, fun hrr => ?_, fun p hp => ⟨hstarted.ready p hp, ?_⟩, .inr ?_⟩
  · rw [hstarted.pitTicks]
    norm_num
  · rw [hstarted.quantum.1, hstarted.quantum.2, hslice (hstarted.policy ▸ hrr)]
    exact ⟨rfl, le_rfl⟩
  · exact (hstarted.bursts p (List.mem_cons_of_mem _ hp)).predicted
  · have hfirst := hstarted.bursts _ k₀.current_mem
    rw [hstarted.pitTicks]
    exact ⟨hfirst.predicted, hfirst.dispatched⟩

/-- Two kernels of the same run under two policies. -/
structure Agreeing (L : Layout) (R : Nat → Prop) (safe : Prop) (k k' : Kernel) : Prop where
  same : SameButPolicy k k'
  inv : Inv L R safe k
  inv' : Inv L R safe k'
  level : Level k.pitTicks k
  level' : Level k'.pitTicks k'

/-- A step of one kernel is a step of the other one. -/
theorem Agreeing.step (h : Agreeing L R safe k k') {e : Event} (hring : e.FromRing3) {k₁ : Kernel}
    (hstep : k.Step L safe e k₁) : ∃ k₁', k'.Step L safe e k₁' ∧ Agreeing L R safe k₁ k₁' := by
  have hl' := h.level'
  rw [h.same.views.2.2.1] at hl'
  -- What is left is that the other kernel takes the step too.
  suffices hother : ∃ k₁', k'.Step L safe e k₁' ∧ SameButPolicy k₁ k₁' ∧
      Inv L R safe k₁ ∧ Inv L R safe k₁' by
    obtain ⟨k₁', hstep', hsame, hinv, hinv'⟩ := hother
    exact ⟨k₁', hstep', hsame, hinv, hinv', h.level.step h.inv hring hstep,
      h.level'.step h.inv' hring hstep'⟩
  cases hstep with
  | @trap t out k₁ ht =>
      obtain ⟨k₁', ht', hsame⟩ := h.same.trap h.level hl' h.inv.members_nodup h.inv.zero_notMem
        hring ht
      exact ⟨k₁', .trap ht', hsame, h.inv.trap ht, h.inv'.trap ht'⟩
  | @write va byte k₁ hsafe hw =>
      obtain ⟨k₁', hw', hsame⟩ := h.same.userWrite hw
      exact ⟨k₁', .write hsafe hw', hsame, h.inv.userWrite hsafe hw, h.inv'.userWrite hsafe hw'⟩

/-- From the same boot, shortest job first, first come first served and round robin with a
quantum of one tick have the same runs, register images included. -/
theorem one_tick_policies_agree (hboot : kmain L B = some k₀)
    (hslice : B.policy = .rr → quantumOf B.quantum = 1) (policy : SchedulingPolicy)
    (quantum : Nat) (hslice' : policy = .rr → quantumOf quantum = 1) :
    ∃ k₀', kmain L { B with policy := policy, quantum := quantum } = some k₀' ∧
      ∀ es k, Runs L k₀ es k → (∀ e ∈ es, e.FromRing3) →
        ∃ k', Runs L k₀' es k' ∧ SameButPolicy k k' := by
  obtain ⟨k₀', hboot', hsame⟩ := kmain_policy hboot policy quantum
  have hmem : k₀'.store = k₀.store := hsame.views.2.1
  have hinv' := kmain_inv hboot'
  rw [hmem] at hinv'
  have hstart : Agreeing L (Reserved L B.mods) (k₀.store.mem.pfa.exhausted = false) k₀ k₀' :=
    ⟨hsame, kmain_inv hboot, hinv', level_start hboot hslice, level_start hboot' hslice'⟩
  refine ⟨k₀', hboot', fun es k hruns hring => ?_⟩
  obtain ⟨k', hruns', hagree⟩ := Trace.lockstep
    (Agreeing L (Reserved L B.mods) (k₀.store.mem.pfa.exhausted = false)) hstart
    (fun s t a s' hst ha hstep => hst.step ha hstep) hruns hring
  refine ⟨k', ?_, hagree.same⟩
  unfold Runs
  rw [hmem]
  exact hruns'

/-- Three processes under SJF and under RR with a quantum of one tick. -/
theorem one_tick_policies_agree_three_modules :
    ∃ k₀ k₁ out k₀' k₁', kmain sampleLayout (sampleBoot 3 (by decide) .sjf) = some k₀ ∧
      k₀.trap sampleLayout (.timer sampleTick) = some (k₁, out) ∧
      kmain sampleLayout { sampleBoot 3 (by decide) .sjf with policy := .rr, quantum := 1 } =
        some k₀' ∧
      Runs sampleLayout k₀' [.trap (.timer sampleTick) out] k₁' ∧ SameButPolicy k₁ k₁' := by
  obtain ⟨k₀, hboot, -⟩ := sampleBoot_runs (show 0 < 3 by decide) (by decide) SchedulingPolicy.sjf
  have htrap := trap_timer (L := sampleLayout) (kmain_started hboot).idle sampleTick
  obtain ⟨k₀', hboot', hagree⟩ := one_tick_policies_agree hboot (fun hrr => by cases hrr) .rr 1
    fun _ => rfl
  have hring : ∀ e ∈ [Event.trap (.timer sampleTick)
      (frameUserToContext (k₀.timerInterruptHandler sampleTick).2)], e.FromRing3 := by
    intro e he
    obtain rfl := List.mem_singleton.1 he
    exact (by decide : sampleTick.common.cs &&& 3 = 3)
  obtain ⟨k₁', hruns, hsame⟩ := hagree _ _ (Trace.start.next (.trap htrap)) hring
  exact ⟨k₀, _, _, k₀', k₁', hboot, htrap, hboot', hruns, hsame⟩

end Policies

end Kernel

end SoKernel
