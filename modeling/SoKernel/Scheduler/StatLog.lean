import SoKernel.Kernel.BootInvariant

/-!
# The STAT log

Every switch writes a line for the process that leaves and a line for the one that
comes; the first dispatch, made by boot, writes none.  So the first line of the log that
is not about a creation is about a process that leaves, and the log does not tell who
was running until then.

Main results:

- Theorem {lit}`trap_log`: the lines that a trap writes.
- Theorem {lit}`log_never_determines`: in no reachable state does the log tell who runs.
-/

namespace SoKernel

/-- The lines about a process that leaves. -/
def StatEvent.IsDeparture (e : StatEvent) : Prop :=
  e = .yielded ∨ e = .preempted ∨ e = .terminated

/-- Starts with a dispatch, and dispatches and departures take turns. -/
def Alternates : List StatEvent → Prop
  | [] => True
  | [e] => e = .scheduled
  | e :: e' :: rest => e = .scheduled ∧ e'.IsDeparture ∧ Alternates rest

theorem Alternates.head {e : StatEvent} {rest : List StatEvent} (h : Alternates (e :: rest)) :
    e = .scheduled := by
  cases rest with
  | nil => exact h
  | cons e' rest => exact h.1

/-- The lines of a log that are not about a creation. -/
def movements (log : List StatLine) : List StatLine :=
  log.filter fun line => line.event ≠ .created

namespace Kernel

section StatLog

variable {L : Layout} {R : Nat → Prop} {safe : Prop} {B : BootInfo} {k k₀ k' : Kernel}

/-- The log tells who runs: for each pid dispatches and departures take turns, and the
last dispatch is that of the current process. -/
structure LogDetermines (k : Kernel) : Prop where
  turns : ∀ pid, Alternates
    (((movements k.statLog).filter fun line => line.pid = pid).map StatLine.event)
  last : ∃ line, (k.statLog.filter fun line => line.event = .scheduled).getLast? = some line ∧
    line.pid = k.current.pid

/-- Lines whose first movement, if there is one, is not a dispatch. -/
def NoFirstDispatch (log : List StatLine) : Prop :=
  ∀ line rest, movements log = line :: rest → line.event ≠ .scheduled

theorem NoFirstDispatch.append {log more : List StatLine} (h : NoFirstDispatch log)
    (hmore : NoFirstDispatch more) : NoFirstDispatch (log ++ more) := by
  intro line rest heq
  rw [movements, List.filter_append] at heq
  cases hfirst : movements log with
  | nil =>
      rw [movements] at hfirst
      rw [hfirst, List.nil_append] at heq
      exact hmore line rest heq
  | cons line' rest' =>
      have hhead := h line' rest' hfirst
      rw [movements] at hfirst
      rw [hfirst, List.cons_append, List.cons.injEq] at heq
      rw [← heq.1]
      exact hhead

theorem noFirstDispatch_created {log : List StatLine} (h : ∀ line ∈ log, line.event = .created) :
    NoFirstDispatch log := by
  intro line rest heq
  have hmem : line ∈ movements log := heq ▸ List.mem_cons_self
  rw [movements, List.mem_filter] at hmem
  simp [h line hmem.1] at hmem

theorem noFirstDispatch_departure {line : StatLine} (h : line.event.IsDeparture)
    (more : List StatLine) : NoFirstDispatch (line :: more) := by
  intro line' rest heq
  rcases h with h | h | h <;>
    rw [movements, List.filter_cons_of_pos (by simp [h]), List.cons.injEq] at heq <;>
    rw [← heq.1, h] <;>
    decide

/-- Without a first dispatch the log does not tell who runs. -/
theorem NoFirstDispatch.not_determines (h : NoFirstDispatch k.statLog) : ¬ LogDetermines k := by
  intro hdet
  cases hfirst : movements k.statLog with
  | nil =>
      -- There is no dispatch at all.
      obtain ⟨line, hlast, -⟩ := hdet.last
      have hmem := List.mem_of_getLast? hlast
      rw [List.mem_filter] at hmem
      have hline : line ∈ movements k.statLog := by
        rw [movements, List.mem_filter]
        refine ⟨hmem.1, ?_⟩
        have hevent : line.event = .scheduled := by simpa using hmem.2
        rw [hevent]
        decide
      rw [hfirst] at hline
      cases hline
  | cons line rest =>
      have hturns := hdet.turns line.pid
      rw [hfirst, List.filter_cons_of_pos (by simp), List.map_cons] at hturns
      exact h line rest hfirst hturns.head

/-! ## What traps write -/

/-- A scheduling call that does not come from an exit writes the departure first. -/
theorem schedule_log (hz : 0 ∉ k.members) (c : ProcessContext) (requeue : Bool) {id : StatContext}
    (hid : id ≠ .exit) :
    ∃ more, (k.schedulerScheduleFromContext c requeue id).2.1.statLog = k.statLog ++ more ∧
      NoFirstDispatch more := by
  have hcases := schedule_cases c requeue id hz
  generalize k.schedulerScheduleFromContext c requeue id = r at hcases
  have hnone : NoFirstDispatch [] := fun line rest heq => by cases heq
  cases hcases with
  | sliceLeft hrr hreq hleft => exact ⟨[], by simp, hnone⟩
  | refused hreq hslice hfull => exact ⟨[], by simp [setPcb, saved], hnone⟩
  | alone hreq hempty => exact ⟨[], by simp [setPcb, saved], hnone⟩
  | switch hslice hroom hperm hfifo =>
      refine ⟨_, rfl, ?_⟩
      rw [switchLog, if_pos hid, List.singleton_append]
      refine noFirstDispatch_departure ?_ _
      simp only [StatEvent.IsDeparture]
      split
      · exact .inr (.inl rfl)
      · exact .inl rfl

/-- An exit writes its own line before anything else. -/
theorem sysExit_log (hz : 0 ∉ k.members) (frame : SyscallFrame) :
    ∃ more, (k.sysExit frame).2.1.statLog = k.statLog ++ more ∧ NoFirstDispatch more := by
  have hcur : k.sched.currentPcb ≠ 0 := fun hc => hz (hc ▸ k.current_mem)
  have hcases := schedule_cases (k := k.markTerminated) (ProcessContext.ofWords frame.words) false
    .exit hz
  have hexit := @sysExit_eq k hcur frame
  generalize k.markTerminated.schedulerScheduleFromContext (ProcessContext.ofWords frame.words) false
    .exit = r at hcases hexit
  have hmark : k.markTerminated.statLog =
      k.statLog ++ [⟨(k.markTerminated.pcbs k.sched.currentPcb).pid, k.pitTicks, .terminated,
        .exit⟩] := rfl
  cases hcases with
  | sliceLeft hrr hreq hleft => cases hreq
  | refused hreq hslice hfull => cases hreq
  | alone hreq hempty =>
      rw [hexit rfl, if_neg (by decide)]
      exact ⟨_, hmark, noFirstDispatch_departure (.inr (.inr rfl)) _⟩
  | @switch next ready hslice hroom hperm hfifo =>
      rw [hexit rfl, if_pos (by decide)]
      refine ⟨⟨(k.markTerminated.pcbs k.sched.currentPcb).pid, k.pitTicks, .terminated, .exit⟩ ::
        ({ k.markTerminated.saved (ProcessContext.ofWords frame.words) false with
          sched := { (k.markTerminated.saved (ProcessContext.ofWords frame.words) false).sched with
            ready := ready } } : Kernel).switchLog k.sched.currentPcb next .exit, ?_,
        noFirstDispatch_departure (.inr (.inr rfl)) _⟩
      change k.markTerminated.statLog ++ _ = _
      rw [hmark, List.append_assoc]
      rfl

/-- The kernel stack of a new process is not logged. -/
theorem allocKernelStack_log (L : Layout) (k : Kernel) (pcb : Nat) :
    (k.allocKernelStack L pcb).2.statLog = k.statLog := by
  unfold allocKernelStack
  simp only
  split
  · rfl
  · rfl

/-- A fork writes at most the creation of the child. -/
theorem sysFork_log (L : Layout) (k : Kernel) (frame : SyscallFrame) :
    ∃ more, (k.sysFork L frame).2.statLog = k.statLog ++ more ∧
      ∀ line ∈ more, line.event = .created := by
  have hnone : ∃ more, k.statLog = k.statLog ++ more ∧
      ∀ line ∈ more, line.event = .created := ⟨[], by simp, by simp⟩
  have henqueue : ∀ (kk : Kernel) (child pid pdt : Nat), kk.statLog = k.statLog →
      ∃ more, (kk.forkEnqueue frame child pid pdt).2.statLog = k.statLog ++ more ∧
        ∀ line ∈ more, line.event = .created := by
    intro kk child pid pdt hlog
    unfold forkEnqueue
    simp only
    split
    · exact ⟨[], by rw [List.append_nil]; exact hlog, by simp⟩
    · rename_i k₁ henq
      have hlog₁ : k₁.statLog = k.statLog := by
        unfold schedulerEnqueueReady at henq
        split at henq
        · cases henq
        · split at henq
          · cases henq
            exact hlog
          · cases henq
      exact ⟨[_], congrArg (· ++ [_]) hlog₁, by simp⟩
  have hstack : ∀ (kk : Kernel) (child pid pdt : Nat), kk.statLog = k.statLog →
      ∃ more, (kk.forkStack L frame child pid pdt).2.statLog = k.statLog ++ more ∧
        ∀ line ∈ more, line.event = .created := by
    intro kk child pid pdt hlog
    unfold forkStack
    have hstack := kk.allocKernelStack_log L child
    generalize kk.allocKernelStack L child = r at hstack
    obtain ⟨ok, kk'⟩ := r
    simp only at hstack ⊢
    split
    · exact ⟨[], by rw [List.append_nil]; exact hstack.trans hlog, by simp⟩
    · exact henqueue _ _ _ _ (hstack.trans hlog)
  unfold sysFork
  simp only
  split
  · exact hnone
  · split
    · exact hnone
    · unfold forkSpace
      simp only
      split
      · exact hnone
      · exact hstack _ _ _ _ rfl

/-- An exec writes at most a creation. -/
theorem execModule_log (k : Kernel) (frame : SyscallFrame) (a b : Nat) :
    ∃ more, (k.execModule frame a b).2.1.statLog = k.statLog ++ more ∧
      ∀ line ∈ more, line.event = .created := by
  unfold execModule
  simp only
  split
  · exact ⟨[], by simp, by simp⟩
  · split
    · exact ⟨[], by simp [withMem], by simp⟩
    · exact ⟨[_], rfl, by simp⟩

/-- Every trap writes the departure before the dispatch. -/
theorem trap_log (hinv : Inv L R safe k) {t : Trap} {out : ProcessContext}
    (ht : k.trap L t = some (k', out)) :
    ∃ more, k'.statLog = k.statLog ++ more ∧ NoFirstDispatch more := by
  have hz := hinv.zero_notMem
  have hnone : ∃ more, k.statLog = k.statLog ++ more ∧ NoFirstDispatch more :=
    ⟨[], by simp, noFirstDispatch_created (by simp)⟩
  obtain ⟨-, hcase⟩ := trap_cases ht
  cases hcase with
  | quiet hquiet => exact hnone
  | @timer frame code k' context henabled hring hrun =>
      have hlog := schedule_log (k := k.tick) hz (frameUserToContext frame) true
        (show StatContext.pit ≠ .exit by decide)
      rw [hrun] at hlog
      exact hlog
  | plain hring hnumber => exact hnone
  | @exec frame frame' kernelByte r k' hring hnumber hrun =>
      rcases sysExec_cases hrun with heq | ⟨path, a, b, -, -, heq⟩
      · cases heq
        exact hnone
      · obtain ⟨more, hlog, hcreated⟩ := k.execModule_log frame a b
        rw [← heq] at hlog
        exact ⟨more, hlog, noFirstDispatch_created hcreated⟩
  | @fork frame kernelByte r k' hring hnumber hrun =>
      obtain ⟨more, hlog, hcreated⟩ := k.sysFork_log L frame
      rw [hrun] at hlog
      exact ⟨more, hlog, noFirstDispatch_created hcreated⟩
  | @yield frame frame' kernelByte r k' hring hnumber hrun =>
      obtain ⟨code, k₁, context, hsched, hyield⟩ := sysYield_eq hz hinv.holding.cr3 frame
      have hlog := schedule_log hz (ProcessContext.ofWords frame.words) true
        (show StatContext.yield ≠ .exit by decide)
      rw [hrun, Prod.mk.injEq, Prod.mk.injEq] at hyield
      rw [hsched] at hlog
      rw [hyield.2.1]
      exact hlog
  | @exit frame frame' kernelByte r k' hring hnumber hrun =>
      have hlog := sysExit_log hz frame
      rw [hrun] at hlog
      exact hlog

/-- In no reachable state does the log tell who runs: the first dispatch is not in it. -/
theorem log_never_determines (hboot : kmain L B = some k₀) (hk : Reachable L k₀ k) :
    ¬ LogDetermines k := by
  have hinv₀ := kmain_inv hboot
  refine NoFirstDispatch.not_determines ?_
  induction hk with
  | boot =>
      rw [(kmain_started hboot).statLog]
      exact noFirstDispatch_created (by simp)
  | trap hk ht ih =>
      obtain ⟨more, hlog, hmore⟩ := trap_log (hinv₀.reachable hk) ht
      rw [hlog]
      exact ih.append hmore
  | write hk hsafe hw ih =>
      obtain ⟨i, j, f, hpage⟩ := (hinv₀.reachable hk).writePage hsafe hw
      rw [hpage.kernel]
      exact ih

theorem log_never_determines_after_boot :
    ∃ k₀, kmain sampleLayout (sampleBoot 2 (by decide) .sjf) = some k₀ ∧ ¬ LogDetermines k₀ := by
  obtain ⟨k₀, hboot, -⟩ :=
    sampleBoot_runs (show 0 < 2 by decide) (by decide) SchedulingPolicy.sjf
  exact ⟨k₀, hboot, log_never_determines hboot .boot⟩

/-- After boot the log is empty while a process runs. -/
theorem log_empty_after_boot :
    ∃ k₀, kmain sampleLayout (sampleBoot 1 (by decide) .sjf) = some k₀ ∧ k₀.statLog = [] ∧
      ¬ LogDetermines k₀ := by
  obtain ⟨k₀, hboot, -⟩ :=
    sampleBoot_runs (show 0 < 1 by decide) (by decide) SchedulingPolicy.sjf
  have hempty := (kmain_started hboot).statLog
  refine ⟨k₀, hboot, hempty, NoFirstDispatch.not_determines ?_⟩
  rw [hempty]
  exact noFirstDispatch_created (by simp)

end StatLog

end Kernel

end SoKernel
