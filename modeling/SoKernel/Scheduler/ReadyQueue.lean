import SoKernel.Scheduler.Schedule

/-!
# The ready queue as a list

The ring with its two ways to take a process out is a list: processes enter at the end,
leave from the front, or leave from where the shortest one stands.  The control blocks
may change between two calls, so each call comes with the table it reads.

Main results:

- Theorem {lit}`queueStep_spec`: one call on the ring is one operation on the list.
- Theorem {lit}`ready_queue_refines_list`: the refinement along every sequence of calls.
-/

namespace SoKernel

/-- A call on the ready queue. -/
inductive QueueCall where
  | enqueue (pcb : Nat)
  | dequeue
  | dequeueSjf

namespace Kernel

/-! ## The calls -/

/-- {lit}`scheduler_init`; the cells of the ring keep what they hold. -/
def schedulerInit (k : Kernel) : Kernel :=
  { k with sched := { k.sched with
    currentPcb := 0
    preemptionEnabled := false
    nextPid := 1
    ready := { RingBuffer.empty readyQueueCapacity readyQueueCapacity_pos 0 with
      slots := k.sched.ready.slots
      head_lt := by decide
      tail_eq := by decide
      len_le := by decide }
    remainingTicks := k.sched.quantumTicks } }

/-- One call with its result: a code, or a pointer that is 0 for none. -/
def queueStep (k : Kernel) : QueueCall → Int × Kernel
  | .enqueue pcb =>
      match k.schedulerEnqueueReady pcb with
      | none => (-1, k)
      | some k => (0, k)
  | .dequeue =>
      let (pcb, k) := k.schedulerDequeueReady
      (pcb, k)
  | .dequeueSjf =>
      let (pcb, k) := k.schedulerDequeueSjf
      (pcb, k)

/-- A sequence of calls, each on the control blocks it comes with, and their results. -/
def queueRun (k : Kernel) : List ((Nat → Pcb) × QueueCall) → List Int × Kernel
  | [] => ([], k)
  | (pcbs, call) :: calls =>
      let (r, k) := ({ k with pcbs := pcbs } : Kernel).queueStep call
      let (rs, k) := k.queueRun calls
      (r :: rs, k)

end Kernel

/-! ## The list -/

/-- The key of a process: its predicted burst when it is ready and has one. -/
def sjfKey (pcbs : Nat → Pcb) (p : Nat) : Nat :=
  if (pcbs p).state = .ready ∧ (pcbs p).predictedBurst ≠ 0 then (pcbs p).predictedBurst
  else 0xFFFFFFFF

/-- One operation on a list of at most 32 processes. -/
inductive ListStep (key : Nat → Nat) (l : List Nat) : QueueCall → Int → List Nat → Prop
  | enqueue {pcb : Nat} (hpcb : pcb ≠ 0) (hroom : l.length < 32) :
      ListStep key l (.enqueue pcb) 0 (l ++ [pcb])
  | refuse {pcb : Nat} (hwhy : pcb = 0 ∨ l.length = 32) : ListStep key l (.enqueue pcb) (-1) l
  | dequeue {pcb : Nat} {rest : List Nat} (hlist : l = pcb :: rest) :
      ListStep key l .dequeue pcb rest
  | none (hempty : l = []) : ListStep key l .dequeue 0 l
  | shortest {i pcb : Nat} (hpcb : l[i]? = some pcb)
      (hleast : ∀ j q : Nat, l[j]? = some q → key pcb ≤ key q)
      (hfirst : ∀ j q : Nat, j < i → l[j]? = some q → key pcb < key q) :
      ListStep key l .dequeueSjf pcb (l.eraseIdx i)
  | noneSjf (hempty : l = []) : ListStep key l .dequeueSjf 0 l

/-- A sequence of operations. -/
inductive ListRun : List Nat → List ((Nat → Pcb) × QueueCall) → List Int → List Nat → Prop
  | nil {l : List Nat} : ListRun l [] [] l
  | cons {l l₁ l₂ : List Nat} {pcbs : Nat → Pcb} {call : QueueCall} {r : Int}
      {calls : List ((Nat → Pcb) × QueueCall)} {rs : List Int}
      (hstep : ListStep (sjfKey pcbs) l call r l₁) (hrest : ListRun l₁ calls rs l₂) :
      ListRun l ((pcbs, call) :: calls) (r :: rs) l₂

/-! ## The refinement -/

namespace Kernel

variable {k : Kernel}

theorem predictedBurstForSjf_eq (k : Kernel) {p : Nat} (hp : p ≠ 0) :
    k.predictedBurstForSjf p = sjfKey k.pcbs p := by
  unfold predictedBurstForSjf sjfKey
  rw [if_neg hp]
  by_cases hstate : (k.pcbs p).state = .ready
  · by_cases hburst : (k.pcbs p).predictedBurst = 0
    · simp [hstate, hburst]
    · simp [hstate, hburst]
  · simp [hstate]

/-- One call on the ring is one operation on the list, and no null pointer enters. -/
theorem queueStep_spec (hz : 0 ∉ k.sched.ready.toList) (call : QueueCall) :
    ListStep (sjfKey k.pcbs) k.sched.ready.toList call (k.queueStep call).1
        (k.queueStep call).2.sched.ready.toList ∧
      0 ∉ (k.queueStep call).2.sched.ready.toList := by
  have hlength := k.sched.ready.length_toList
  cases call with
  | enqueue pcb =>
      by_cases hpcb : pcb = 0
      · have hrun : k.queueStep (.enqueue pcb) = (-1, k) := by
          simp [queueStep, schedulerEnqueueReady, hpcb]
        rw [hrun]
        exact ⟨.refuse (.inl hpcb), hz⟩
      · rcases schedulerEnqueueReady_cases k hpcb with ⟨hroom, ready, hlist, henq⟩ | ⟨hfull, henq⟩
        · have hrun : k.queueStep (.enqueue pcb) =
              (0, { k with sched := { k.sched with ready := ready } }) := by
            simp only [queueStep, henq]
          rw [hrun]
          simp only [hlist]
          refine ⟨.enqueue hpcb (by rw [hlength]; exact hroom), fun hmem => ?_⟩
          rcases List.mem_append.1 hmem with hmem | hmem
          · exact hz hmem
          · exact hpcb (List.mem_singleton.1 hmem).symm
        · have hrun : k.queueStep (.enqueue pcb) = (-1, k) := by
            simp only [queueStep, henq]
          rw [hrun]
          exact ⟨.refuse (.inr (by rw [hlength]; exact hfull)), hz⟩
  | dequeue =>
      by_cases hempty : k.sched.ready.toList = []
      · have hlen : ¬ 0 < k.sched.ready.len := by
          rw [← hlength, hempty]
          simp
        have hrun : k.queueStep .dequeue = (0, k) := by
          simp [queueStep, schedulerDequeueReady, hlen]
        rw [hrun]
        exact ⟨.none hempty, hz⟩
      · obtain ⟨next, ready, hlist, hres⟩ := schedulerDequeueReady_spec hempty
        have hrun : k.queueStep .dequeue =
            ((next : Int), { k with sched := { k.sched with ready := ready } }) := by
          simp only [queueStep, hres]
        rw [hrun]
        refine ⟨.dequeue hlist, fun hmem => hz ?_⟩
        rw [hlist]
        exact List.mem_cons_of_mem _ hmem
  | dequeueSjf =>
      by_cases hempty : k.sched.ready.toList = []
      · have hlen : ¬ 0 < k.sched.ready.len := by
          rw [← hlength, hempty]
          simp
        have hrun : k.queueStep .dequeueSjf = (0, k) := by
          simp [queueStep, schedulerDequeueSjf, hlen]
        rw [hrun]
        exact ⟨.noneSjf hempty, hz⟩
      · have hpos := len_pos_of_toList hempty
        have hbest := sjfBest_spec hpos
        have hcap := k.sched.ready.len_le
        have hindex := hbest.index
        have hrun : k.queueStep .dequeueSjf = ((k.sched.ready.get k.sjfBest.1 : Int),
            { k with sched := { k.sched with
              ready := k.sched.ready.removeAt k.sjfBest.1 hpos } }) := by
          simp only [queueStep, schedulerDequeueSjf, dif_pos hpos]
          rw [if_neg (by omega)]
        -- The scan reads the keys of the processes of the list.
        have hkey : ∀ j q, k.sched.ready.toList[j]? = some q → j < k.sched.ready.len ∧
            k.predictedBurstForSjf (k.sched.ready.get j) = sjfKey k.pcbs q := by
          intro j q hq
          have hj : j < k.sched.ready.len := by
            rw [← hlength]
            exact (List.getElem?_eq_some_iff.1 hq).1
          rw [RingBuffer.getElem?_toList _ hj, Option.some.injEq] at hq
          subst hq
          exact ⟨hj, predictedBurstForSjf_eq k fun h0 => hz (h0 ▸ RingBuffer.get_mem _ hj)⟩
        have hget : k.sched.ready.toList[k.sjfBest.1]? = some (k.sched.ready.get k.sjfBest.1) :=
          RingBuffer.getElem?_toList _ hindex
        have hburst := hbest.burst.trans (hkey _ _ hget).2
        rw [hrun]
        simp only [RingBuffer.toList_removeAt _ hpos hindex]
        refine ⟨.shortest hget (fun j q hq => ?_) fun j q hj hq => ?_, fun hmem => ?_⟩
        · rw [← hburst, ← (hkey j q hq).2]
          exact hbest.least j (hkey j q hq).1
        · rw [← hburst, ← (hkey j q hq).2]
          exact hbest.first j hj
        · exact hz (List.mem_of_mem_eraseIdx hmem)

/-- A sequence of calls is a sequence of operations on the list. -/
theorem queueRun_spec (hz : 0 ∉ k.sched.ready.toList) (calls : List ((Nat → Pcb) × QueueCall)) :
    ListRun k.sched.ready.toList calls (k.queueRun calls).1
      (k.queueRun calls).2.sched.ready.toList := by
  induction calls generalizing k with
  | nil => exact .nil
  | cons c calls ih =>
      obtain ⟨pcbs, call⟩ := c
      obtain ⟨hstep, hz'⟩ := queueStep_spec (k := { k with pcbs := pcbs }) hz call
      exact .cons hstep (ih hz')

/-- The ready queue refines a list of at most 32 processes, from {lit}`scheduler_init` on. -/
theorem ready_queue_refines_list (k : Kernel) (calls : List ((Nat → Pcb) × QueueCall)) :
    ∃ l : List Nat, ListRun [] calls (k.schedulerInit.queueRun calls).1 l ∧
      l.length = (k.schedulerInit.queueRun calls).2.sched.ready.len ∧ l.length ≤ 32 ∧
      (k.schedulerInit.queueRun calls).2.sched.ready.tail =
        ((k.schedulerInit.queueRun calls).2.sched.ready.head + l.length) % 32 ∧
      ∀ i, i < l.length → l[i]? = some ((k.schedulerInit.queueRun calls).2.sched.ready.slots
        (((k.schedulerInit.queueRun calls).2.sched.ready.head + i) % 32)) := by
  have hempty : k.schedulerInit.sched.ready.toList = [] := rfl
  have hrun := queueRun_spec (k := k.schedulerInit) (by rw [hempty]; simp) calls
  rw [hempty] at hrun
  have hlen := (k.schedulerInit.queueRun calls).2.sched.ready.length_toList
  refine ⟨_, hrun, hlen, ?_, ?_, fun i hi => ?_⟩
  · rw [hlen]
    exact (k.schedulerInit.queueRun calls).2.sched.ready.len_le
  · rw [hlen]
    exact (k.schedulerInit.queueRun calls).2.sched.ready.tail_eq
  · rw [hlen] at hi
    exact RingBuffer.getElem?_toList _ hi

end Kernel

end SoKernel
