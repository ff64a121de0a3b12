import SoKernel.Kernel.Population

/-!
# The burst prediction

Shortest job first orders the queue by a prediction: when a process goes back to the queue, the
ticks since its last dispatch are averaged with the prediction it had.  The average is taken in
32 bits, and the counter of ticks wraps.  {lit}`scheduler_update_burst_prediction` takes a
counter that has come round for a burst of one tick.

The history of a process is a run of dispatches and requeues.  A forked process begins with the
history of its parent.

Main results:

- Theorem {lit}`reachable_burstHistory`: the burst fields of every process come from such a run.
- Theorem {lit}`BurstBounds.run`: the prediction is never 0, and never above the longest burst.
- Theorem {lit}`burst_prediction_iff`: on which runs a requeue averages the bursts.
-/

namespace SoKernel

open Kernel

/-! ## Runs of one process -/

/-- What happens to the burst fields of a process, with the counter of ticks. -/
inductive BurstEvent where
  | dispatch (now : Nat)
  | requeue (now : Nat)

/-- The counter at an event. -/
def BurstEvent.now : BurstEvent → Nat
  | .dispatch now => now
  | .requeue now => now

/-- The ticks since a dispatch, on a counter of 32 bits, and at least 1. -/
def burstTicks (now last : Nat) : Nat :=
  max 1 (u32 (now + 2 ^ 32 - last))

/-- A control block with the longest burst that was observed, or 1. -/
structure BurstState where
  pcb : Pcb
  longest : Nat

/-- {lit}`scheduler_set_current` and {lit}`scheduler_update_burst_prediction` on the control
block. -/
def BurstState.step (s : BurstState) : BurstEvent → BurstState
  | .dispatch now => ⟨{ s.pcb with lastDispatchTick := now }, s.longest⟩
  | .requeue now =>
      ⟨schedulerUpdateBurstPrediction s.pcb now,
        max s.longest (burstTicks now s.pcb.lastDispatchTick)⟩

/-- The state after a run of a new process. -/
def burstRun (b : Pcb) (events : List BurstEvent) : BurstState :=
  events.foldl BurstState.step ⟨b, 1⟩

theorem burstRun_append (b : Pcb) (events : List BurstEvent) (e : BurstEvent) :
    burstRun b (events ++ [e]) = (burstRun b events).step e := by
  rw [burstRun, List.foldl_append]
  rfl

/-! ## Bounds -/

/-- The prediction is at least 1 and at most the longest burst. -/
structure BurstBounds (s : BurstState) : Prop where
  pos : 1 ≤ s.pcb.predictedBurst
  le : s.pcb.predictedBurst ≤ s.longest
  longest : s.longest < 2 ^ 32
  last : s.pcb.lastDispatchTick < 2 ^ 32

section Bounds

variable {s : BurstState} {now last : Nat}

/-- A burst counts at least one tick. -/
theorem burstTicks_pos (now last : Nat) : 1 ≤ burstTicks now last :=
  Nat.le_max_left _ _

theorem burstTicks_lt (now last : Nat) : burstTicks now last < 2 ^ 32 := by
  have hlt : u32 (now + 2 ^ 32 - last) < 2 ^ 32 := Nat.mod_lt _ (by norm_num)
  unfold burstTicks
  omega

/-- The ticks that the code counts: those since the dispatch, or 1 when the counter has come
round. -/
theorem elapsedTicks_eq (hnow : now < 2 ^ 32) (hlast : last < 2 ^ 32) :
    elapsedTicks now last = if last ≤ now then burstTicks now last else 1 := by
  unfold elapsedTicks burstTicks u32
  split
  · dsimp only
    split
    · omega
    · omega
  · norm_num

/-- The ticks that are counted are no more than those that have passed. -/
theorem elapsedTicks_le (hnow : now < 2 ^ 32) (hlast : last < 2 ^ 32) :
    1 ≤ elapsedTicks now last ∧ elapsedTicks now last ≤ burstTicks now last := by
  have hpos := burstTicks_pos now last
  rw [elapsedTicks_eq hnow hlast]
  split
  · exact ⟨hpos, le_rfl⟩
  · exact ⟨le_rfl, hpos⟩

/-- The prediction after a requeue. -/
theorem predictedBurst_update (b : Pcb) (now : Nat) (hpos : 1 ≤ b.predictedBurst) :
    (schedulerUpdateBurstPrediction b now).predictedBurst =
      max 1 (u32 (b.predictedBurst + elapsedTicks now b.lastDispatchTick) / 2) := by
  simp only [schedulerUpdateBurstPrediction, if_neg (show ¬ b.predictedBurst = 0 by omega)]
  split
  · omega
  · omega

/-- A dispatch or a requeue keeps the bounds. -/
theorem BurstBounds.step (h : BurstBounds s) (e : BurstEvent) (he : e.now < 2 ^ 32) :
    BurstBounds (s.step e) := by
  cases e with
  | dispatch now => exact ⟨h.pos, h.le, h.longest, he⟩
  | requeue now =>
      have hpos := h.pos
      have hle := h.le
      have hlongest := h.longest
      have hticks := burstTicks_lt now s.pcb.lastDispatchTick
      obtain ⟨-, helapsed⟩ := elapsedTicks_le (show now < 2 ^ 32 from he) h.last
      have hsum : u32 (s.pcb.predictedBurst + elapsedTicks now s.pcb.lastDispatchTick) ≤
          s.pcb.predictedBurst + elapsedTicks now s.pcb.lastDispatchTick := Nat.mod_le _ _
      have hpredicted := predictedBurst_update s.pcb now hpos
      refine ⟨?_, ?_, ?_, h.last⟩
      · change 1 ≤ (schedulerUpdateBurstPrediction s.pcb now).predictedBurst
        omega
      · change (schedulerUpdateBurstPrediction s.pcb now).predictedBurst ≤
          max s.longest (burstTicks now s.pcb.lastDispatchTick)
        omega
      · change max s.longest (burstTicks now s.pcb.lastDispatchTick) < 2 ^ 32
        omega

/-- Along every run the prediction is never 0 and never above the longest burst. -/
theorem BurstBounds.run {b : Pcb} (hb : NeverRan b) (events : List BurstEvent)
    (hticks : ∀ e ∈ events, e.now < 2 ^ 32) : BurstBounds (burstRun b events) := by
  induction events using List.reverseRecOn with
  | nil =>
      refine ⟨?_, ?_, by norm_num [burstRun], ?_⟩
      · exact hb.predicted.ge
      · exact hb.predicted.le
      · change b.lastDispatchTick < 2 ^ 32
        rw [hb.dispatched]
        norm_num
  | append_singleton events e ih =>
      rw [burstRun_append]
      exact (ih fun e' he' => hticks e' (List.mem_append_left _ he')).step e
        (hticks e (by simp))

end Bounds

/-! ## Averages -/

/-- A requeue at {lit}`now` records the ticks since the last dispatch and averages them with the
prediction: the new prediction lies between the two, is not 0, and is not above the longest
burst. -/
structure Averages (s : BurstState) (now : Nat) : Prop where
  burst : (s.step (.requeue now)).pcb.burstTime = burstTicks now s.pcb.lastDispatchTick
  average : (s.step (.requeue now)).pcb.predictedBurst =
    (s.pcb.predictedBurst + burstTicks now s.pcb.lastDispatchTick) / 2
  lower : min s.pcb.predictedBurst (burstTicks now s.pcb.lastDispatchTick) ≤
    (s.step (.requeue now)).pcb.predictedBurst
  upper : (s.step (.requeue now)).pcb.predictedBurst ≤
    max s.pcb.predictedBurst (burstTicks now s.pcb.lastDispatchTick)
  nonzero : (s.step (.requeue now)).pcb.predictedBurst ≠ 0
  observed : (s.step (.requeue now)).pcb.predictedBurst ≤ (s.step (.requeue now)).longest

/-- The counter has not come round since the dispatch, unless exactly one tick has passed, and
the sum of the prediction and the ticks has 32 bits. -/
def NoWrap (s : BurstState) (now : Nat) : Prop :=
  (s.pcb.lastDispatchTick ≤ now ∨ burstTicks now s.pcb.lastDispatchTick = 1) ∧
    s.pcb.predictedBurst + burstTicks now s.pcb.lastDispatchTick < 2 ^ 32

/-- After every run, a requeue averages exactly when nothing wraps. -/
theorem burst_prediction_iff {b : Pcb} (hb : NeverRan b) {events : List BurstEvent} {now : Nat}
    (hticks : ∀ e ∈ events, e.now < 2 ^ 32) (hnow : now < 2 ^ 32) :
    Averages (burstRun b events) now ↔ NoWrap (burstRun b events) now := by
  have hbounds := BurstBounds.run hb events hticks
  generalize burstRun b events = s at hbounds
  have hpos := hbounds.pos
  have hticks' := burstTicks_lt now s.pcb.lastDispatchTick
  have hone := burstTicks_pos now s.pcb.lastDispatchTick
  have helapsed := elapsedTicks_eq hnow hbounds.last
  have hburst : (s.step (.requeue now)).pcb.burstTime =
    elapsedTicks now s.pcb.lastDispatchTick := rfl
  have hpredicted : (s.step (.requeue now)).pcb.predictedBurst =
      max 1 (u32 (s.pcb.predictedBurst + elapsedTicks now s.pcb.lastDispatchTick) / 2) :=
    predictedBurst_update s.pcb now hpos
  constructor
  · intro h
    have hsame : elapsedTicks now s.pcb.lastDispatchTick =
        burstTicks now s.pcb.lastDispatchTick := hburst.symm.trans h.burst
    constructor
    · by_cases hle : s.pcb.lastDispatchTick ≤ now
      · exact .inl hle
      · rw [if_neg hle] at helapsed
        exact .inr (hsame.symm.trans helapsed)
    · -- A sum that wraps is less than half the average.
      have haverage := h.average
      have hle := hbounds.le
      have hlongest := hbounds.longest
      rw [hpredicted, hsame] at haverage
      unfold u32 at haverage
      omega
  · rintro ⟨hround, hsum⟩
    have hsame : elapsedTicks now s.pcb.lastDispatchTick =
        burstTicks now s.pcb.lastDispatchTick := by
      rw [helapsed]
      split
      · rfl
      · rename_i hnot
        exact (hround.resolve_left hnot).symm
    rw [hsame] at hburst hpredicted
    rw [u32, Nat.mod_eq_of_lt hsum] at hpredicted
    have hnext := hbounds.step (.requeue now) hnow
    refine ⟨hburst, ?_, ?_, ?_, ?_, hnext.le⟩
    · rw [hpredicted]
      omega
    · rw [hpredicted]
      omega
    · rw [hpredicted]
      omega
    · have := hnext.pos
      omega

/-- A burst of 4 ticks and one of 3, after which the prediction is 2. -/
theorem burst_prediction_two_bursts :
    Averages (burstRun (freshPcb 1 0) [.dispatch 5, .requeue 9, .dispatch 10]) 13 := by
  refine (burst_prediction_iff ⟨rfl, rfl, rfl⟩ ?_ (by norm_num)).2 ⟨by decide, by decide⟩
  intro e he
  simp only [List.mem_cons, List.not_mem_nil, or_false] at he
  rcases he with rfl | rfl | rfl
  all_goals norm_num [BurstEvent.now]

/-- A first burst of {lit}`2 ^ 32 - 1` ticks is averaged to 1, and a burst of 20 ticks in which
the counter comes round is recorded as one tick. -/
theorem burst_prediction_wraps :
    ¬ Averages (burstRun (freshPcb 1 0) [.dispatch 0]) (2 ^ 32 - 1) ∧
      ¬ Averages (burstRun (freshPcb 1 0) [.dispatch (2 ^ 32 - 10)]) 10 := by
  constructor
  · intro h
    exact absurd h.average (by decide)
  · intro h
    exact absurd h.burst (by decide)

/-! ## Runs of the kernel -/

/-- The burst fields of two control blocks are the same. -/
structure SameBurst (b b' : Pcb) : Prop where
  burst : b.burstTime = b'.burstTime
  predicted : b.predictedBurst = b'.predictedBurst
  dispatched : b.lastDispatchTick = b'.lastDispatchTick

/-- The burst fields of a control block come from a run of dispatches and requeues. -/
def BurstHistory (b : Pcb) : Prop :=
  ∃ b₀ events, NeverRan b₀ ∧ (∀ e ∈ events, BurstEvent.now e < 2 ^ 32) ∧
    SameBurst b (burstRun b₀ events).pcb

section Histories

variable {b b' : Pcb} {now : Nat}

theorem SameBurst.step {s : BurstState} (h : SameBurst b s.pcb) (e : BurstEvent) :
    SameBurst (BurstState.step ⟨b, 1⟩ e).pcb (s.step e).pcb := by
  cases e with
  | dispatch now => exact ⟨h.burst, h.predicted, rfl⟩
  | requeue now =>
      simp only [BurstState.step, schedulerUpdateBurstPrediction, h.predicted, h.dispatched]
      exact ⟨rfl, rfl, rfl⟩

/-- A history is one of the fields of the burst only. -/
theorem BurstHistory.congr (h : BurstHistory b) (hsame : SameBurst b' b) : BurstHistory b' := by
  obtain ⟨b₀, events, hb₀, hticks, hrun⟩ := h
  exact ⟨b₀, events, hb₀, hticks, hsame.burst.trans hrun.burst,
    hsame.predicted.trans hrun.predicted, hsame.dispatched.trans hrun.dispatched⟩

/-- One more dispatch or requeue. -/
theorem BurstHistory.step (h : BurstHistory b) (e : BurstEvent) (he : e.now < 2 ^ 32)
    (hb' : SameBurst b' (BurstState.step ⟨b, 1⟩ e).pcb) : BurstHistory b' := by
  obtain ⟨b₀, events, hb₀, hticks, hrun⟩ := h
  refine BurstHistory.congr ⟨b₀, events ++ [e], hb₀, fun e' he' => ?_, ?_⟩ hb'
  · rcases List.mem_append.1 he' with he' | he'
    · exact hticks e' he'
    · rw [List.mem_singleton] at he'
      subst he'
      exact he
  · rw [burstRun_append]
    exact hrun.step e

/-- The process that is dispatched has a history. -/
theorem BurstHistory.incoming (h : BurstHistory b) (hnow : now < 2 ^ 32) :
    BurstHistory (incoming b now) := by
  refine h.step (.dispatch now) hnow ?_
  unfold Kernel.incoming schedulerInitContextFromPcb
  split
  · exact ⟨rfl, rfl, rfl⟩
  · exact ⟨rfl, rfl, rfl⟩

/-- The process that is requeued has a history. -/
theorem BurstHistory.outgoing (h : BurstHistory b) (hnow : now < 2 ^ 32) (c : ProcessContext)
    (requeue : Bool) : BurstHistory (outgoing b c requeue now) := by
  cases requeue with
  | false => exact h.congr ⟨rfl, rfl, rfl⟩
  | true => exact h.step (.requeue now) hnow ⟨rfl, rfl, rfl⟩

end Histories

namespace Kernel

/-- Every process has a history, on a counter of 32 bits. -/
structure BurstHistories (k : Kernel) : Prop where
  ticks : k.pitTicks < 2 ^ 32
  history : ∀ p ∈ k.members, BurstHistory (k.pcbs p)

section Runs

variable {L : Layout} {R : Nat → Prop} {safe : Prop} {B : BootInfo} {k k₀ k' : Kernel}

theorem BurstHistories.tick (h : BurstHistories k) : BurstHistories k.tick :=
  ⟨Nat.mod_lt _ (by norm_num), h.history⟩

/-- A scheduling call is a requeue of the process that leaves and a dispatch of the one that
comes. -/
theorem BurstHistories.schedule (h : BurstHistories k) (hz : 0 ∉ k.members) (c : ProcessContext)
    (requeue : Bool) (id : StatContext) :
    BurstHistories (k.schedulerScheduleFromContext c requeue id).2.1 := by
  have hcases := schedule_cases c requeue id hz
  generalize k.schedulerScheduleFromContext c requeue id = r at hcases
  have hcurrent := (h.history _ k.current_mem).outgoing h.ticks c requeue
  have hstayed : ∀ p ∈ k.members, BurstHistory (((k.saved c requeue).setPcb k.sched.currentPcb
      { outgoing k.current c requeue k.pitTicks with state := .running }).pcbs p) := by
    intro p hp
    rw [stayed_pcbs]
    split
    · exact hcurrent.congr ⟨rfl, rfl, rfl⟩
    · exact h.history p hp
  cases hcases with
  | sliceLeft hrr hreq hleft => exact ⟨h.ticks, h.history⟩
  | refused hreq hslice hfull => exact ⟨h.ticks, hstayed⟩
  | alone hreq hempty => exact ⟨h.ticks, hstayed⟩
  | @switch next ready hslice hroom hperm hfifo =>
      have hsaved : ∀ p ∈ k.members, BurstHistory ((k.saved c requeue).pcbs p) := by
        intro p hp
        by_cases hcur : p = k.sched.currentPcb
        · subst hcur
          simp only [saved, Function.update_self]
          exact hcurrent
        · simp only [saved, Function.update_of_ne hcur]
          exact h.history p hp
      have hmember : ∀ p ∈ next :: ready.toList, p ∈ k.members := by
        intro p hp
        rcases List.mem_append.1 (hperm.mem_iff.2 hp) with hready | hself
        · exact List.mem_cons_of_mem _ hready
        · cases requeue with
          | false => cases hself
          | true =>
              rw [if_pos rfl, List.mem_singleton] at hself
              exact hself ▸ k.current_mem
      refine ⟨h.ticks, fun p hp => ?_⟩
      change p ∈ next :: ready.toList at hp
      rw [switched_pcbs]
      split
      · exact (hsaved next (hmember next List.mem_cons_self)).incoming h.ticks
      · split
        · exact hcurrent
        · exact h.history p (hmember p hp)

/-- What a trap does to the burst fields is a run of dispatches and requeues. -/
theorem BurstHistories.trap (h : BurstHistories k) (hinv : Inv L R safe k) {t : Trap}
    {out : ProcessContext} (ht : k.trap L t = some (k', out)) : BurstHistories k' := by
  have hz := hinv.zero_notMem
  obtain ⟨-, hcase⟩ := trap_cases ht
  cases hcase with
  | quiet hquiet => exact h.tick
  | @timer frame code k' context henabled hring hrun =>
      have hnext := h.tick.schedule hz (frameUserToContext frame) true .pit
      rw [hrun] at hnext
      exact hnext
  | plain hring hnumber => exact h
  | @exec frame frame' kernelByte r k' hring hnumber hrun =>
      rcases sysExec_cases hrun with heq | ⟨path, a, b, -, -, heq⟩
      · cases heq
        exact h
      · have hspec := execModule_spec hinv frame a b
        rw [← heq] at hspec
        cases hspec with
        | failed inv aside short restored rest =>
            rw [rest]
            exact ⟨h.ticks, h.history⟩
        | @done k' d inv executed room =>
            refine ⟨executed.pitTicks ▸ h.ticks, fun p hp => ?_⟩
            have hp' : p ∈ k.members := by
              rw [Kernel.members, executed.sched] at hp
              exact hp
            by_cases hcur : p = k.sched.currentPcb
            · have hpcb := executed.pcb
              rw [Kernel.current, executed.sched, ← hcur] at hpcb
              rw [hpcb]
              exact (h.history _ k.current_mem).congr ⟨rfl, rfl, rfl⟩
            · rw [executed.others p hcur]
              exact h.history p hp'
  | @fork frame kernelByte r k' hring hnumber hrun =>
      have hspec := sysFork_spec hinv frame
      rw [hrun] at hspec
      cases hspec with
      | failed inv aside short spent counter =>
          refine ⟨aside.pitTicks ▸ h.ticks, fun p hp => ?_⟩
          rw [aside.members] at hp
          rw [aside.pcbs p (mem_holders hp)]
          exact h.history p hp
      | @forked k' child d base inv forked spent =>
          refine ⟨forked.pitTicks ▸ h.ticks, fun p hp => ?_⟩
          rw [forked.members] at hp
          rcases List.mem_append.1 hp with hp | hp
          · rw [forked.others p (mem_holders hp)]
            exact h.history p hp
          · -- The child has the burst fields of its parent.
            rw [List.mem_singleton] at hp
            rw [hp, forked.pcb]
            exact (h.history _ k.current_mem).congr ⟨rfl, rfl, rfl⟩
  | @yield frame frame' kernelByte r k' hring hnumber hrun =>
      obtain ⟨code, k₁, context, hschedule, hyield⟩ := sysYield_eq hz hinv.holding.cr3 frame
      have hnext := h.schedule hz (ProcessContext.ofWords frame.words) true .yield
      rw [hschedule] at hnext
      rw [hyield] at hrun
      cases hrun
      exact hnext
  | @exit frame frame' kernelByte r k' hring hnumber hrun =>
      have hmarked : BurstHistories k.markTerminated := by
        refine ⟨h.ticks, fun p hp => ?_⟩
        rw [markTerminated_pcbs]
        split
        · exact (h.history _ k.current_mem).congr ⟨rfl, rfl, rfl⟩
        · exact h.history p hp
      have hnext := hmarked.schedule hz (ProcessContext.ofWords frame.words) false .exit
      have hexit := @sysExit_eq k hinv.current_ne frame
      generalize k.markTerminated.schedulerScheduleFromContext (ProcessContext.ofWords frame.words)
        false .exit = r' at hnext hexit
      obtain ⟨code, k₂, context⟩ := r'
      rw [hexit rfl] at hrun
      cases hrun
      split
      · exact ⟨hnext.ticks, hnext.history⟩
      · exact ⟨hnext.ticks, hnext.history⟩

/-- In every reachable state the burst fields of every process come from a run of dispatches
and requeues. -/
theorem reachable_burstHistory (hboot : kmain L B = some k₀) (hk : Reachable L k₀ k) :
    BurstHistories k := by
  have hinv := kmain_inv hboot
  induction hk with
  | boot =>
      have hstarted := kmain_started hboot
      refine ⟨by rw [hstarted.pitTicks]; norm_num, fun p hp => ?_⟩
      exact ⟨k₀.pcbs p, [], hstarted.bursts p hp, by simp, rfl, rfl, rfl⟩
  | trap hk ht ih => exact ih.trap (hinv.reachable hk) ht
  | write hk hsafe hw ih =>
      obtain ⟨i, j, f, hpage⟩ := (hinv.reachable hk).writePage hsafe hw
      rw [hpage.kernel]
      exact ⟨ih.ticks, ih.history⟩

end Runs

end Kernel

end SoKernel
