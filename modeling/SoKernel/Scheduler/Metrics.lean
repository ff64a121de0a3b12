import SoKernel.Scheduler.Accounting
import SoKernel.Scheduler.Pids
import SoKernel.Scheduler.Rotation

/-!
# The metrics of the log

The notebook {lit}`view_data_scheduling.ipynb` computes from the STAT log how long each
process has waited.  The log does not have the first dispatch after boot, and it has no line
for a process that becomes ready at boot.  The waiting time is right all the same: it is the
number of ticks for which the process was in the ready queue, and the turnaround time is that
and the ticks for which it ran.

Main results:

- Theorem {lit}`Stage.step`: what an event adds to the log of a process, and to its meter.
- Theorem {lit}`metrics_of_boot_process`: the metrics of a process that boot has made.
-/

namespace SoKernel

/-! ## The notebook -/

/-- A row of {lit}`compute_pid_metrics`. -/
structure PidMetrics where
  responseTime : Nat
  waitingTime : Nat
  turnaroundTime : Nat
deriving DecidableEq

/-- One pass of the loop of {lit}`compute_pid_metrics`, on {lit}`waiting_time` and
{lit}`ready_enter_tick`. -/
def waitingStep (s : Nat × Option Nat) (ev : StatLine) : Nat × Option Nat :=
  match ev.event with
  | .scheduled =>
      (match s.2 with
        | some readyEnterTick => s.1 + (ev.ticks - readyEnterTick)
        | none => s.1, none)
  | .yielded => (s.1, some ev.ticks)
  | .preempted => (s.1, some ev.ticks)
  | .terminated => (s.1, none)
  | .created => s

/-- The rows of one process, in the order of {lit}`sort_values`. -/
def pidRows (log : List StatLine) (pid : Nat) : List StatLine :=
  (log.filter fun line => line.pid = pid).mergeSort fun a b => a.ticks ≤ b.ticks

/-- {lit}`compute_pid_metrics` for one process, ready from tick 0 on. -/
def computePidMetrics (log : List StatLine) (pid : Nat) : PidMetrics :=
  let g := pidRows log pid
  let scheduledEvents := g.filter fun line => line.event = .scheduled
  let terminatedEvents := g.filter fun line => line.event = .terminated
  let firstScheduleTick := (scheduledEvents.head?.map StatLine.ticks).getD 0
  let terminatedTick :=
    (terminatedEvents.getLast?.map StatLine.ticks).getD
      ((g.getLast?.map StatLine.ticks).getD 0)
  { responseTime := firstScheduleTick
    waitingTime := (g.foldl waitingStep (0, some 0)).1
    turnaroundTime := terminatedTick }

/-- Whether an event is a call of {lit}`sys_fork`. -/
def Event.forks : Event → Nat
  | .trap (.syscall frame _) _ => if frame.eax = 3 then 1 else 0
  | _ => 0

/-! ## The lines of one process -/

/-- What the loop has after the lines of one process. -/
def waitingOf (log : List StatLine) (pid : Nat) : Nat × Option Nat :=
  (log.filter fun line => line.pid = pid).foldl waitingStep (0, some 0)

/-- The tick of the last end of a process. -/
def lastEnd (log : List StatLine) (pid : Nat) : Option Nat :=
  ((log.filter fun line => line.pid = pid ∧ line.event = .terminated).getLast?).map StatLine.ticks

/-- Lines that tell the notebook nothing about a process: those of other processes, and
creations. -/
def SilentAbout (pid : Nat) (lines : List StatLine) : Prop :=
  ∀ line ∈ lines, line.pid = pid → line.event = .created

/-- Lines of other processes change no waiting time. -/
theorem waitingOf_append {log lines : List StatLine} {pid : Nat} (h : SilentAbout pid lines) :
    waitingOf (log ++ lines) pid = waitingOf log pid := by
  unfold waitingOf
  rw [List.filter_append, List.foldl_append]
  generalize (log.filter _).foldl waitingStep (0, some 0) = s
  induction lines with
  | nil => rfl
  | cons line lines ih =>
      have hrest := ih fun l hl => h l (List.mem_cons_of_mem _ hl)
      by_cases hpid : line.pid = pid
      · have hcreated := h line List.mem_cons_self hpid
        rw [List.filter_cons_of_pos (by simpa using hpid), List.foldl_cons]
        rw [show waitingStep s line = s by simp only [waitingStep, hcreated]]
        exact hrest
      · rw [List.filter_cons_of_neg (by simpa using hpid)]
        exact hrest

/-- Lines of other processes change no end. -/
theorem lastEnd_append {log lines : List StatLine} {pid : Nat} (h : SilentAbout pid lines) :
    lastEnd (log ++ lines) pid = lastEnd log pid := by
  unfold lastEnd
  rw [List.filter_append]
  have hnone : lines.filter (fun line => line.pid = pid ∧ line.event = .terminated) = [] := by
    rw [List.filter_eq_nil_iff]
    intro line hline
    simp only [decide_eq_true_eq, not_and]
    intro hpid
    rw [h line hline hpid]
    decide
  rw [hnone, List.append_nil]

/-- One more line of the process. -/
theorem waitingOf_line (log : List StatLine) (line : StatLine) :
    waitingOf (log ++ [line]) line.pid = waitingStep (waitingOf log line.pid) line := by
  unfold waitingOf
  rw [List.filter_append, List.foldl_append, List.filter_cons_of_pos (by simp), List.filter_nil]
  rfl

/-- A process that ends. -/
theorem lastEnd_line (log : List StatLine) (line : StatLine) (h : line.event = .terminated) :
    lastEnd (log ++ [line]) line.pid = some line.ticks := by
  unfold lastEnd
  rw [List.filter_append, List.filter_cons_of_pos (by simp [h]), List.filter_nil,
    List.getLast?_concat]
  rfl

namespace Kernel

/-! ## What a trap does to the turns of the processes -/

/-- What a trap does to the turns of the processes and to the log: nobody moves, the process
that runs gives way, it ends, or it ends as the last one. -/
inductive Turn (k k' : Kernel) : Prop
  | stay {children : List Nat} {more : List StatLine}
      (current : k'.sched.currentPcb = k.sched.currentPcb)
      (ready : k'.sched.ready.toList = k.sched.ready.toList ++ children)
      (fresh : ∀ c ∈ children, c ∉ k.holders) (idle : k'.idle = false)
      (log : k'.statLog = k.statLog ++ more)
      (created : ∀ line ∈ more, line.event = .created ∧ line.ticks = k'.pitTicks)
  | switch {event : StatEvent} {id : StatContext} (hevent : event = .yielded ∨ event = .preempted)
      (members : (k.sched.ready.toList ++ [k.sched.currentPcb]).Perm k'.members)
      (idle : k'.idle = false)
      (log : k'.statLog = k.statLog ++ [⟨k.current.pid, k'.pitTicks, event, id⟩,
        ⟨(k.pcbs k'.sched.currentPcb).pid, k'.pitTicks, .scheduled, id⟩])
  | leave (members : k.sched.ready.toList.Perm k'.members) (idle : k'.idle = false)
      (log : k'.statLog = k.statLog ++ [⟨k.current.pid, k'.pitTicks, .terminated, .exit⟩,
        ⟨(k.pcbs k'.sched.currentPcb).pid, k'.pitTicks, .scheduled, .exit⟩])
  | finish (alone : k.sched.ready.toList = []) (members : k'.members = k.members)
      (idle : k'.idle = true)
      (log : k'.statLog = k.statLog ++ [⟨k.current.pid, k'.pitTicks, .terminated, .exit⟩])

/-- The lines of the log are in the order of their ticks, none later than now. -/
structure InOrder (k : Kernel) : Prop where
  sorted : k.statLog.Pairwise fun a b => a.ticks ≤ b.ticks
  past : ∀ line ∈ k.statLog, line.ticks ≤ k.pitTicks

/-- A process with a pid that no other process has, and that the counter has passed. -/
structure Known (p x : Nat) (k : Kernel) : Prop where
  holder : p ∈ k.holders
  pid : (k.pcbs p).pid = x
  only : ∀ q ∈ k.members, (k.pcbs q).pid = x → q = p
  below : x < k.sched.nextPid

/-- The log of a process with pid {lit}`x` against its meter, while it waits, while it runs, and
when it has ended. -/
inductive Stage (p x : Nat) (k : Kernel) (m : Meter) : Prop
  | waiting {waited since : Nat} (waits : p ∈ k.sched.ready.toList)
      (log : waitingOf k.statLog x = (waited, some since)) (past : since ≤ k.pitTicks)
      (sum : waited + (k.pitTicks - since) = m.waited p)
      (all : m.waited p + m.ran p = k.pitTicks)
  | running (runs : p = k.sched.currentPcb) (idle : k.idle = false)
      (log : (waitingOf k.statLog x).1 = m.waited p) (all : m.waited p + m.ran p = k.pitTicks)
  | ended (gone : p ∉ k.members ∨ k.idle = true)
      (log : (waitingOf k.statLog x).1 = m.waited p)
      (last : lastEnd k.statLog x = some (m.waited p + m.ran p))

/-- A process of boot in a metered run, after the given ticks and forks. -/
structure Measured (B : BootInfo) (p x forks ticks : Nat) (s : Kernel × Meter) : Prop where
  clock : s.1.pitTicks = ticks
  counter : s.1.sched.nextPid ≤ B.mods.length + 1 + forks
  order : InOrder s.1
  known : Known p x s.1
  stage : Stage p x s.1 s.2

section Metrics

variable {L : Layout} {R : Nat → Prop} {safe : Prop} {B : BootInfo} {k k₀ k₁ k' : Kernel}

/-- Nobody moves and nothing is logged. -/
theorem Turn.quiet (hcur : k'.sched.currentPcb = k.sched.currentPcb)
    (hready : k'.sched.ready.toList = k.sched.ready.toList) (hidle : k'.idle = false)
    (hlog : k'.statLog = k.statLog) : Turn k k' := by
  have hgrown : k'.sched.ready.toList = k.sched.ready.toList ++ [] := by
    rw [hready, List.append_nil]
  have hlogged : k'.statLog = k.statLog ++ [] := by rw [hlog, List.append_nil]
  refine .stay hcur hgrown ?_ hidle hlogged ?_
  · rintro c ⟨⟩
  · rintro line ⟨⟩

/-- A scheduling call from a tick or a yield. -/
theorem turn_schedule (hz : 0 ∉ k.members) (hidle : k.idle = false) {c out : ProcessContext}
    {id : StatContext} {code : Int} (hid : id ≠ .exit)
    (hrun : k.schedulerScheduleFromContext c true id = (code, k', out)) :
    Turn k k' ∧ k'.pitTicks = k.pitTicks := by
  have hcases := schedule_cases c true id hz
  rw [hrun] at hcases
  cases hcases with
  | sliceLeft hrr hreq hleft => exact ⟨.quiet rfl rfl hidle rfl, rfl⟩
  | refused hreq hslice hfull => exact ⟨.quiet rfl rfl hidle rfl, rfl⟩
  | alone hreq hempty => cases hreq
  | @switch next ready hslice hroom hperm hfifo =>
      refine ⟨@Turn.switch k _ (if id = .pit then .preempted else .yielded) id ?_ hperm hidle ?_,
        rfl⟩
      · split
        · exact .inr rfl
        · exact .inl rfl
      · have hlog : switchLog { k.saved c true with
            sched := { (k.saved c true).sched with ready := ready } } k.sched.currentPcb next id =
            [⟨((k.saved c true).pcbs k.sched.currentPcb).pid, k.pitTicks,
                if id = .pit then .preempted else .yielded, id⟩,
              ⟨((k.saved c true).pcbs next).pid, k.pitTicks, .scheduled, id⟩] := by
          rw [switchLog, if_pos hid]
          rfl
        change k.statLog ++ switchLog _ k.sched.currentPcb next id = _
        rw [hlog, saved_pid, saved_pid]
        rfl

/-- The scheduling call of an exit. -/
theorem turn_exit (hz : 0 ∉ k.members) {c out : ProcessContext} {code : Int} {k₂ : Kernel}
    (hidle : k.idle = false)
    (hrun : k.markTerminated.schedulerScheduleFromContext c false .exit = (code, k₂, out))
    (hk' : k' = if code > 0 then { k₂.withMem (k₂.store.mem.destroyUserSpace
          (k.markTerminated.pcbs k.sched.currentPcb).pdt) with
        exited := k₂.exited ++ [k.sched.currentPcb] }
      else { k₂ with idle := true }) : Turn k k' ∧ k'.pitTicks = k.pitTicks := by
  have hpid : ∀ p, (k.markTerminated.pcbs p).pid = (k.pcbs p).pid := by
    intro p
    rw [markTerminated_pcbs]
    split
    · rename_i hpc
      rw [hpc]
      rfl
    · rfl
  have hmark : k.markTerminated.statLog =
      k.statLog ++ [⟨(k.markTerminated.pcbs k.sched.currentPcb).pid, k.pitTicks, .terminated,
        .exit⟩] := rfl
  rw [hpid] at hmark
  have hcases := schedule_cases (k := k.markTerminated) c false .exit hz
  rw [hrun] at hcases
  cases hcases with
  | sliceLeft hrr hreq hleft => cases hreq
  | refused hreq hslice hfull => cases hreq
  | alone hreq hempty =>
      rw [if_neg (by decide)] at hk'
      subst hk'
      exact ⟨.finish hempty rfl rfl hmark, rfl⟩
  | @switch next ready hslice hroom hperm hfifo =>
      rw [if_pos (by decide)] at hk'
      subst hk'
      refine ⟨.leave ?_ hidle ?_, rfl⟩
      · rw [candidates, if_neg Bool.false_ne_true, List.append_nil] at hperm
        exact hperm
      · change k.markTerminated.statLog ++ switchLog _ k.sched.currentPcb next .exit = _
        rw [hmark, switchLog, if_neg (fun hne => hne rfl), List.nil_append, List.append_assoc]
        change k.statLog ++ ([_] ++ [⟨((k.markTerminated.saved c false).pcbs next).pid, _, _, _⟩]) = _
        rw [saved_pid, hpid]
        rfl

/-- What a trap does to the turns of the processes, and to the clock. -/
theorem Inv.turn (h : Inv L R safe k) {t : Trap} {out : ProcessContext}
    (ht : k.trap L t = some (k', out)) (hticks : k.pitTicks + (Event.trap t out).ticks < 2 ^ 32) :
    Turn k k' ∧ k'.pitTicks = k.pitTicks + (Event.trap t out).ticks := by
  have hz := h.zero_notMem
  obtain ⟨hidle, hserved⟩ := h.served ht
  have hstay : ∀ k' : Kernel, k'.sched = k.sched → k'.idle = k.idle → LogsCreations k k' →
      k'.pitTicks = k.pitTicks → Turn k k' := by
    rintro k' hsched hidle' ⟨more, hlog, hcreated⟩ hclock
    have hgrown : k'.sched.ready.toList = k.sched.ready.toList ++ [] := by
      rw [hsched, List.append_nil]
    refine .stay (by rw [hsched]) hgrown (fun _ hc => by cases hc) (hidle'.trans hidle) hlog ?_
    rw [hclock]
    exact hcreated
  cases hserved with
  | quiet hquiet =>
      exact ⟨.quiet rfl rfl hidle rfl, Nat.mod_eq_of_lt hticks⟩
  | requeued call hrun =>
      cases call with
      | timer henabled hring =>
          obtain ⟨hturn, hclock⟩ := turn_schedule (k := k.tick) hz hidle (by decide) hrun
          refine ⟨?_, hclock.trans (Nat.mod_eq_of_lt hticks)⟩
          cases hturn with
          | stay current ready fresh idle log created => exact .stay current ready fresh idle log created
          | switch hevent members idle log => exact .switch hevent members idle log
          | leave members idle log => exact .leave members idle log
          | finish alone members idle log => exact .finish alone members idle log
      | yield hring hnumber => exact turn_schedule hz hidle (by decide) hrun
  | kept hring hnumber => exact ⟨hstay k rfl rfl (.of_same rfl) rfl, rfl⟩
  | gaveUp hring hnumber aside counter log =>
      obtain ⟨more, hlog, hcreated⟩ := log
      have hgrown : k'.sched.ready.toList = k.sched.ready.toList ++ [] := by
        rw [aside.sched, List.append_nil]
      refine ⟨.stay (by rw [aside.sched]) hgrown (fun _ hc => by cases hc)
        (aside.idle.trans hidle) hlog ?_, aside.pitTicks⟩
      rw [aside.pitTicks]
      exact hcreated
  | executed hring hnumber executed log =>
      exact ⟨hstay k' executed.sched executed.idle log executed.pitTicks, executed.pitTicks⟩
  | forked hring hnumber forked log =>
      obtain ⟨more, hlog, hcreated⟩ := log
      refine ⟨.stay (by rw [forked.sched]) forked.ready (fun c hc => ?_) (forked.idle.trans hidle)
        hlog ?_, forked.pitTicks⟩
      · rw [List.mem_singleton.1 hc]
        exact forked.fresh
      · rw [forked.pitTicks]
        exact hcreated
  | left hring hnumber hrun => exact turn_exit hz hidle hrun rfl

/-! ## The invariants of a run -/

/-- Lines of the present keep the log in the order of time. -/
theorem InOrder.append (h : InOrder k) {more : List StatLine} (hlog : k'.statLog = k.statLog ++ more)
    (hclock : k.pitTicks ≤ k'.pitTicks) (hnow : ∀ line ∈ more, line.ticks = k'.pitTicks) :
    InOrder k' := by
  refine ⟨?_, fun line hline => ?_⟩
  · rw [hlog, List.pairwise_append]
    refine ⟨h.sorted, List.pairwise_of_forall_mem_list fun a ha b hb => ?_, fun a ha b hb => ?_⟩
    · rw [hnow a ha, hnow b hb]
    · rw [hnow b hb]
      exact (h.past a ha).trans hclock
  · rw [hlog] at hline
    rcases List.mem_append.1 hline with hline | hline
    · exact (h.past line hline).trans hclock
    · exact (hnow line hline).le

/-- A turn keeps the log in the order of time. -/
theorem InOrder.turn (h : InOrder k) (ht : Turn k k') (hclock : k.pitTicks ≤ k'.pitTicks) :
    InOrder k' := by
  cases ht with
  | stay current ready fresh idle log created =>
      exact h.append log hclock fun line hline => (created line hline).2
  | switch hevent members idle log => exact h.append log hclock (by simp)
  | leave members idle log => exact h.append log hclock (by simp)
  | finish alone members idle log => exact h.append log hclock (by simp)

/-- A trap keeps the pids of the processes, and a fork takes one that the counter has not
passed. -/
theorem Known.trap {p x : Nat} (h : Known p x k) (hinv : Inv L R safe k) {t : Trap}
    {out : ProcessContext} (hroom : k.sched.nextPid + 1 < 2 ^ 32)
    (ht : k.trap L t = some (k', out)) : Known p x k' := by
  have hafter : pidAfter k.sched.nextPid = k.sched.nextPid + 1 := pidAfter_of_lt hroom
  -- The processes that were known keep their pids, in an order that may be new.
  have hsame : (∀ q ∈ k.holders, (k'.pcbs q).pid = (k.pcbs q).pid) → p ∈ k'.holders →
      (∀ q ∈ k'.members, q ∈ k.members) → k.sched.nextPid ≤ k'.sched.nextPid → Known p x k' := by
    intro hpids hholder hmembers hcounter
    refine ⟨hholder, (hpids p h.holder).trans h.pid, fun q hq hx => ?_, h.below.trans_le hcounter⟩
    have hmem := hmembers q hq
    exact h.only q hmem ((hpids q (mem_holders hmem)).symm.trans hx)
  have hsplit := h.holder
  unfold holders at hsplit
  rw [List.mem_append, List.mem_append] at hsplit
  cases (hinv.trap_effect ht).2 with
  | requeued kept members =>
      refine hsame (fun q _ => kept.pids q) ?_ (fun q hq => members.mem_iff.1 hq) kept.nextPid.ge
      unfold holders
      rw [List.mem_append, List.mem_append, members.mem_iff, kept.exited, kept.dropped]
      exact hsplit
  | gaveUp aside counter =>
      refine hsame (fun q hq => by rw [aside.pcbs q hq]) ?_ (fun q hq => aside.members ▸ hq) ?_
      · unfold holders
        rw [List.mem_append, List.mem_append, aside.members, aside.exited, aside.dropped]
        exact hsplit
      · rcases counter with hcounter | hcounter
        · exact hcounter.ge
        · rw [hcounter]
          change _ ≤ pidAfter k.sched.nextPid
          omega
  | executed executed =>
      have hmembers : k'.members = k.members := by
        unfold members
        rw [executed.sched]
      refine hsame (fun q _ => ?_) ?_ (fun q hq => hmembers ▸ hq) (by rw [executed.sched])
      · by_cases hq : q = k.sched.currentPcb
        · have hpcb := executed.pcb
          rw [current, executed.sched] at hpcb
          rw [hq, hpcb]
          rfl
        · rw [executed.others q hq]
      · unfold holders
        rw [List.mem_append, List.mem_append, hmembers, executed.exited, executed.dropped]
        exact hsplit
  | @forked frame child d base call forked =>
      refine ⟨?_, ?_, fun q hq hx => ?_, ?_⟩
      · unfold holders
        rw [List.mem_append, List.mem_append, forked.members, forked.exited, forked.dropped,
          List.mem_append]
        exact hsplit.imp_left .inl
      · rw [forked.others p h.holder]
        exact h.pid
      · rw [forked.members] at hq
        rcases List.mem_append.1 hq with hq | hq
        · rw [forked.others q (mem_holders hq)] at hx
          exact h.only q hq hx
        · -- The pid of the child is one that the counter had not passed.
          rw [List.mem_singleton.1 hq, forked.pcb] at hx
          have hchild : k.sched.nextPid = x := hx
          have := h.below
          omega
      · rw [forked.counter]
        change x < pidAfter k.sched.nextPid
        have := h.below
        omega
  | exited call exited =>
      refine hsame (fun q _ => exited.pids q) ?_
        (fun q hq => List.mem_cons_of_mem _ (exited.ready.mem_iff.2 hq)) exited.nextPid.ge
      unfold holders
      rw [List.mem_append, List.mem_append, ← exited.ready.mem_iff, exited.exited, exited.dropped,
        List.mem_append]
      rcases hsplit with hmem | hmem
      · rcases List.mem_cons.1 hmem with hmem | hmem
        · exact .inr (.inl (.inr (List.mem_singleton.2 hmem)))
        · exact .inl hmem
      · exact .inr (hmem.imp_left .inl)
  | idle call kept members =>
      refine hsame (fun q _ => kept.pids q) ?_ (fun q hq => members ▸ hq) kept.nextPid.ge
      have hexited : k'.exited = k.exited := kept.exited
      have hdropped : k'.dropped = k.dropped := kept.dropped
      unfold holders
      rw [List.mem_append, List.mem_append, members, hexited, hdropped]
      exact hsplit

/-! ## The stages of a process -/

/-- A line of another pid says nothing about this one. -/
theorem silent_of_ne {line : StatLine} {x : Nat} (h : line.pid ≠ x) : SilentAbout x [line] := by
  intro l hl hpid
  rw [List.mem_singleton.1 hl] at hpid
  exact absurd hpid h

/-- A creation is no slice. -/
theorem silent_created {more : List StatLine} {now : Nat} (x : Nat)
    (h : ∀ line ∈ more, line.event = .created ∧ line.ticks = now) : SilentAbout x more :=
  fun line hline _ => (h line hline).1

/-- A process that waits is charged for waiting. -/
theorem charge_waiting {p : Nat} (hnodup : k.members.Nodup) (hp : p ∈ k.sched.ready.toList)
    (m : Meter) (ticks : Nat) :
    (m.charge k ticks).waited p = m.waited p + ticks ∧ (m.charge k ticks).ran p = m.ran p := by
  have hne : p ≠ k.sched.currentPcb := fun heq => (List.nodup_cons.1 hnodup).1 (heq ▸ hp)
  simp only [Meter.charge, if_pos hp, if_neg hne, Nat.add_zero, and_self]

/-- The process that runs is charged for running. -/
theorem charge_running (hnodup : k.members.Nodup) (m : Meter) (ticks : Nat) :
    (m.charge k ticks).waited k.sched.currentPcb = m.waited k.sched.currentPcb ∧
      (m.charge k ticks).ran k.sched.currentPcb = m.ran k.sched.currentPcb + ticks := by
  have hnot := (List.nodup_cons.1 hnodup).1
  simp only [Meter.charge, if_neg hnot, if_pos, Nat.add_zero, and_self]

/-- No other process is charged. -/
theorem charge_gone {p : Nat} (hp : p ∉ k.members) (m : Meter) (ticks : Nat) :
    (m.charge k ticks).waited p = m.waited p ∧ (m.charge k ticks).ran p = m.ran p := by
  have hne : p ≠ k.sched.currentPcb := fun heq => hp (heq ▸ k.current_mem)
  have hready : p ∉ k.sched.ready.toList := fun hmem => hp (List.mem_cons_of_mem _ hmem)
  simp only [Meter.charge, if_neg hready, if_neg hne, Nat.add_zero, and_self]

/-- A process that waits goes on waiting, or has its turn. -/
theorem Stage.turn_waiting {p x ticks waited since : Nat} {m : Meter} (hk : Known p x k)
    (hnodup : k.members.Nodup) (ht : Turn k k') (hclock : k'.pitTicks = k.pitTicks + ticks)
    (waits : p ∈ k.sched.ready.toList) (log : waitingOf k.statLog x = (waited, some since))
    (past : since ≤ k.pitTicks) (sum : waited + (k.pitTicks - since) = m.waited p)
    (all : m.waited p + m.ran p = k.pitTicks) : Stage p x k' (m.charge k ticks) := by
  obtain ⟨hwaited, hran⟩ := charge_waiting hnodup waits m ticks
  have hne : p ≠ k.sched.currentPcb := fun heq => (List.nodup_cons.1 hnodup).1 (heq ▸ waits)
  have hother : ∀ q ∈ k.members, q ≠ p → (k.pcbs q).pid ≠ x := fun q hq hqp hx =>
    hqp (hk.only q hq hx)
  have hcur : k.current.pid ≠ x := hother _ k.current_mem (Ne.symm hne)
  -- Lines about other processes leave it waiting.
  have hgoesOn : p ∈ k'.sched.ready.toList → waitingOf k'.statLog x = waitingOf k.statLog x →
      Stage p x k' (m.charge k ticks) := by
    intro hmem hlog
    refine .waiting hmem (hlog.trans log) (by omega) ?_ ?_
    · omega
    · omega
  -- A dispatch ends the waiting.
  have hturn : ∀ lines event id, k'.statLog = k.statLog ++ [lines, ⟨x, k'.pitTicks, event, id⟩] →
      lines.pid ≠ x → event = .scheduled → p = k'.sched.currentPcb → k'.idle = false →
      Stage p x k' (m.charge k ticks) := by
    intro line event id hlog hline hevent hp hidle
    refine .running hp hidle ?_ (by omega)
    have hview := waitingOf_line (k.statLog ++ [line]) ⟨x, k'.pitTicks, event, id⟩
    simp only at hview
    rw [hlog, List.append_cons, hview, waitingOf_append (silent_of_ne hline), log, hevent]
    change waited + (k'.pitTicks - since) = _
    omega
  cases ht with
  | stay current ready fresh idle hlog created =>
      refine hgoesOn ?_ ?_
      · rw [ready]
        exact List.mem_append_left _ waits
      · rw [hlog, waitingOf_append (silent_created x created)]
  | @switch event id hevent members idle hlog =>
      have hnext : k'.sched.currentPcb ∈ k.members :=
        (List.perm_append_singleton _ _).mem_iff.1 (members.mem_iff.2 k'.current_mem)
      by_cases hp : p = k'.sched.currentPcb
      · rw [← hp, hk.pid] at hlog
        exact hturn _ _ _ hlog hcur rfl hp idle
      · refine hgoesOn ?_ ?_
        · have hmem := members.mem_iff.1 (List.mem_append_left _ waits)
          exact (List.mem_cons.1 hmem).resolve_left hp
        · rw [hlog, List.append_cons,
            waitingOf_append (silent_of_ne (hother _ hnext (Ne.symm hp))),
            waitingOf_append (silent_of_ne hcur)]
  | leave members idle hlog =>
      have hnext : k'.sched.currentPcb ∈ k.members :=
        List.mem_cons_of_mem _ (members.mem_iff.2 k'.current_mem)
      by_cases hp : p = k'.sched.currentPcb
      · rw [← hp, hk.pid] at hlog
        exact hturn _ _ _ hlog hcur rfl hp idle
      · refine hgoesOn ?_ ?_
        · exact (List.mem_cons.1 (members.mem_iff.1 waits)).resolve_left hp
        · rw [hlog, List.append_cons,
            waitingOf_append (silent_of_ne (hother _ hnext (Ne.symm hp))),
            waitingOf_append (silent_of_ne hcur)]
  | finish alone members idle hlog =>
      rw [alone] at waits
      cases waits

/-- The process that runs goes on, gives way, or ends. -/
theorem Stage.turn_running {p x ticks : Nat} {m : Meter} (hk : Known p x k)
    (hnodup : k.members.Nodup) (ht : Turn k k') (hclock : k'.pitTicks = k.pitTicks + ticks)
    (runs : p = k.sched.currentPcb) (log : (waitingOf k.statLog x).1 = m.waited p)
    (all : m.waited p + m.ran p = k.pitTicks) : Stage p x k' (m.charge k ticks) := by
  subst runs
  obtain ⟨hwaited, hran⟩ := charge_running hnodup m ticks
  have hready := (List.nodup_cons.1 hnodup).1
  have hcur : k.current.pid = x := hk.pid
  have hother : ∀ q ∈ k.members, q ≠ k.sched.currentPcb → (k.pcbs q).pid ≠ x :=
    fun q hq hqp hx => hqp (hk.only q hq hx)
  cases ht with
  | stay current ready fresh idle hlog created =>
      refine .running current.symm idle ?_ (by omega)
      rw [hlog, waitingOf_append (silent_created x created), log, hwaited]
  | @switch event id hevent members idle hlog =>
      have hnext : k'.sched.currentPcb ∈ k.members :=
        (List.perm_append_singleton _ _).mem_iff.1 (members.mem_iff.2 k'.current_mem)
      have hgave := waitingOf_line k.statLog ⟨k.current.pid, k'.pitTicks, event, id⟩
      have hstep : waitingStep (waitingOf k.statLog x) ⟨k.current.pid, k'.pitTicks, event, id⟩ =
          (m.waited k.sched.currentPcb, some k'.pitTicks) := by
        rw [← log]
        rcases hevent with rfl | rfl
        · rfl
        · rfl
      simp only [hcur] at hgave hstep
      by_cases hp : k.sched.currentPcb = k'.sched.currentPcb
      · -- It was alone, and has the next turn at once.
        have hpid : (k.pcbs k'.sched.currentPcb).pid = x := by rw [← hp, hk.pid]
        have hback := waitingOf_line (k.statLog ++ [⟨x, k'.pitTicks, event, id⟩])
          ⟨x, k'.pitTicks, .scheduled, id⟩
        refine .running hp idle ?_ (by omega)
        rw [hlog, hcur, hpid, List.append_cons, hback, hgave, hstep, hwaited]
        change m.waited k.sched.currentPcb + (k'.pitTicks - k'.pitTicks) = _
        omega
      · have hmem := members.mem_iff.1
          (List.mem_append_right k.sched.ready.toList (List.mem_singleton_self k.sched.currentPcb))
        have hback : waitingOf k'.statLog x = (m.waited k.sched.currentPcb, some k'.pitTicks) := by
          rw [hlog, hcur, List.append_cons,
            waitingOf_append (silent_of_ne (hother _ hnext (Ne.symm hp))), hgave, hstep]
        exact .waiting ((List.mem_cons.1 hmem).resolve_left hp) hback le_rfl (by omega) (by omega)
  | leave members idle hlog =>
      have hnext : k'.sched.currentPcb ∈ k.sched.ready.toList :=
        members.mem_iff.2 k'.current_mem
      have hne : (k.pcbs k'.sched.currentPcb).pid ≠ x :=
        hother _ (List.mem_cons_of_mem _ hnext) fun heq => hready (heq ▸ hnext)
      have hended := waitingOf_line k.statLog ⟨k.current.pid, k'.pitTicks, .terminated, .exit⟩
      have hlast := lastEnd_line k.statLog ⟨k.current.pid, k'.pitTicks, .terminated, .exit⟩ rfl
      simp only [hcur] at hended hlast
      refine .ended (.inl fun hmem => hready (members.mem_iff.2 hmem)) ?_ ?_
      · rw [hlog, hcur, List.append_cons, waitingOf_append (silent_of_ne hne), hended, hwaited]
        exact log
      · rw [hlog, hcur, List.append_cons, lastEnd_append (silent_of_ne hne), hlast, hwaited, hran,
          Option.some.injEq]
        omega
  | finish alone members idle hlog =>
      have hended := waitingOf_line k.statLog ⟨k.current.pid, k'.pitTicks, .terminated, .exit⟩
      have hlast := lastEnd_line k.statLog ⟨k.current.pid, k'.pitTicks, .terminated, .exit⟩ rfl
      simp only [hcur] at hended hlast
      refine .ended (.inr idle) ?_ ?_
      · rw [hlog, hcur, hended, hwaited]
        exact log
      · rw [hlog, hcur, hlast, hwaited, hran, Option.some.injEq]
        omega

/-- A process that has ended stays so. -/
theorem Stage.turn_ended {p x ticks : Nat} {m : Meter} (hk : Known p x k) (ht : Turn k k')
    (gone : p ∉ k.members) (log : (waitingOf k.statLog x).1 = m.waited p)
    (last : lastEnd k.statLog x = some (m.waited p + m.ran p)) :
    Stage p x k' (m.charge k ticks) := by
  obtain ⟨hwaited, hran⟩ := charge_gone gone m ticks
  have hother : ∀ q ∈ k.members, (k.pcbs q).pid ≠ x := fun q hq hx =>
    gone (hk.only q hq hx ▸ hq)
  have hcur : k.current.pid ≠ x := hother _ k.current_mem
  have hstays : ∀ lines, k'.statLog = k.statLog ++ lines → SilentAbout x lines →
      p ∉ k'.members → Stage p x k' (m.charge k ticks) := by
    intro lines hlog hsilent hgone
    refine .ended (.inl hgone) ?_ ?_
    · rw [hlog, waitingOf_append hsilent, log, hwaited]
    · rw [hlog, lastEnd_append hsilent, last, hwaited, hran]
  have hsilent : ∀ a b : StatLine, a.pid ≠ x → b.pid ≠ x → SilentAbout x [a, b] := by
    intro a b ha hb line hline hpid
    rcases List.mem_cons.1 hline with rfl | hline
    · exact absurd hpid ha
    · rw [List.mem_singleton.1 hline] at hpid
      exact absurd hpid hb
  cases ht with
  | stay current ready fresh idle hlog created =>
      refine hstays _ hlog (silent_created x created) fun hmem => ?_
      rw [Kernel.members, current, ready] at hmem
      rcases List.mem_cons.1 hmem with hmem | hmem
      · exact gone (hmem ▸ k.current_mem)
      · rcases List.mem_append.1 hmem with hmem | hmem
        · exact gone (List.mem_cons_of_mem _ hmem)
        · exact fresh p hmem hk.holder
  | switch hevent members idle hlog =>
      have hback : ∀ q ∈ k'.members, q ∈ k.members := fun q hq =>
        (List.perm_append_singleton _ _).mem_iff.1 (members.mem_iff.2 hq)
      exact hstays _ hlog (hsilent _ _ hcur (hother _ (hback _ k'.current_mem)))
        fun hmem => gone (hback p hmem)
  | leave members idle hlog =>
      have hback : ∀ q ∈ k'.members, q ∈ k.members := fun q hq =>
        List.mem_cons_of_mem _ (members.mem_iff.2 hq)
      exact hstays _ hlog (hsilent _ _ hcur (hother _ (hback _ k'.current_mem)))
        fun hmem => gone (hback p hmem)
  | finish alone members idle hlog =>
      exact hstays _ hlog (silent_of_ne hcur) fun hmem => gone (members ▸ hmem)

/-- What a trap adds to the log of a process, and to its meter. -/
theorem Stage.turn {p x ticks : Nat} {m : Meter} (h : Stage p x k m) (hk : Known p x k)
    (hidle : k.idle = false) (hnodup : k.members.Nodup) (ht : Turn k k')
    (hclock : k'.pitTicks = k.pitTicks + ticks) : Stage p x k' (m.charge k ticks) := by
  cases h with
  | waiting waits log past sum all =>
      exact turn_waiting hk hnodup ht hclock waits log past sum all
  | running runs idle log all => exact turn_running hk hnodup ht hclock runs log all
  | ended gone log last =>
      refine turn_ended hk ht (gone.resolve_right fun hgone => ?_) log last
      exact Bool.noConfusion (hidle.symm.trans hgone)

/-! ## Metered runs -/

/-- A scheduling call takes no pid. -/
theorem schedule_nextPid (hz : 0 ∉ k.members) {c out : ProcessContext} {requeue : Bool}
    {id : StatContext} {code : Int}
    (hrun : k.schedulerScheduleFromContext c requeue id = (code, k', out)) :
    k'.sched.nextPid = k.sched.nextPid := by
  have hcases := schedule_cases c requeue id hz
  rw [hrun] at hcases
  cases hcases with
  | sliceLeft hrr hreq hleft => rfl
  | refused hreq hslice hfull => rfl
  | alone hreq hempty => rfl
  | switch hslice hroom hperm hfifo => rfl

/-- Only a fork moves the counter of pids. -/
theorem Inv.counter_le (h : Inv L R safe k) {t : Trap} {out : ProcessContext}
    (hroom : k.sched.nextPid + 1 < 2 ^ 32) (ht : k.trap L t = some (k', out)) :
    k'.sched.nextPid ≤ k.sched.nextPid + (Event.trap t out).forks := by
  have hz := h.zero_notMem
  have hafter : k.schedulerAllocatePid.2.sched.nextPid = k.sched.nextPid + 1 := pidAfter_of_lt hroom
  cases (h.served ht).2 with
  | quiet hquiet => exact le_rfl
  | requeued call hrun =>
      cases call with
      | timer henabled hring => exact (schedule_nextPid (k := k.tick) hz hrun).le
      | yield hring hnumber => exact (schedule_nextPid hz hrun).le.trans (Nat.le_add_right _ _)
  | kept hring hnumber => exact Nat.le_add_right _ _
  | gaveUp hring hnumber aside counter log =>
      rcases counter with hcounter | ⟨hfork, hcounter⟩
      · rw [hcounter]
        exact Nat.le_add_right _ _
      · rw [hcounter, hafter, Event.forks, if_pos hfork]
  | executed hring hnumber executed log =>
      rw [executed.sched]
      exact Nat.le_add_right _ _
  | forked hring hnumber forked log => rw [forked.counter, hafter, Event.forks, if_pos hnumber]
  | @left frame kernelByte code k₂ out hring hnumber hrun =>
      have hkept := schedule_nextPid (k := k.markTerminated) hz hrun
      refine le_trans (le_of_eq ?_) (Nat.le_add_right _ _)
      split
      · exact hkept
      · exact hkept

/-- One metered event. -/
theorem Measured.step {p x forks ticks : Nat} {s s' : Kernel × Meter} {e : Event}
    (h : Measured B p x forks ticks s) (hinv : Inv L R safe s.1)
    (hticks : ticks + e.ticks < 2 ^ 32) (hforks : B.mods.length + 2 + forks < 2 ^ 32)
    (hstep : MeteredStep L safe s e s') :
    Measured B p x (forks + e.forks) (ticks + e.ticks) s' := by
  obtain ⟨k, m⟩ := s
  obtain ⟨k', m'⟩ := s'
  obtain ⟨hstep, hmeter⟩ := hstep
  obtain ⟨hclock, hcounter, horder, hknown, hstage⟩ := h
  simp only at hclock hcounter horder hknown hstage hmeter
  cases hstep with
  | @write va byte k' hsafe hw =>
      obtain ⟨i, j, f, hpage⟩ := hinv.writePage hsafe hw
      have hkernel : k' = _ := hpage.kernel
      have hm : m' = m := by
        rw [hmeter]
        unfold Meter.charge
        simp [Event.ticks]
      rw [hm, hkernel]
      refine ⟨hclock, hcounter, ⟨horder.sorted, horder.past⟩,
        ⟨hknown.holder, hknown.pid, hknown.only, hknown.below⟩, ?_⟩
      cases hstage with
      | waiting waits log past sum all => exact .waiting waits log past sum all
      | running runs idle log all => exact .running runs idle log all
      | ended gone log last => exact .ended gone log last
  | @trap t out k' ht =>
      have hidle : k.idle = false := (hinv.served ht).1
      obtain ⟨hturn, hclock'⟩ := hinv.turn ht (hclock ▸ hticks)
      have hnext : k'.sched.nextPid ≤ k.sched.nextPid + (Event.trap t out).forks :=
        hinv.counter_le (show k.sched.nextPid + 1 < 2 ^ 32 by omega) ht
      rw [hmeter]
      have hclock'' : k'.pitTicks = k.pitTicks + (Event.trap t out).ticks := hclock'
      have hlater : k.pitTicks ≤ k'.pitTicks := by omega
      refine ⟨?_, ?_, horder.turn hturn hlater,
        hknown.trap hinv (show k.sched.nextPid + 1 < 2 ^ 32 by omega) ht,
        hstage.turn hknown hidle hinv.members_nodup hturn hclock'⟩
      · exact hclock''.trans (by rw [hclock])
      · exact hnext.trans (by omega)

/-- After boot the log is empty, the first process runs and the others wait. -/
theorem measured_start (hboot : kmain L B = some k₀) {p : Nat} (hp : p ∈ k₀.members) :
    Measured B p (k₀.pcbs p).pid 0 0 (k₀, Meter.zero) := by
  have hstarted := kmain_started hboot
  have hlog : k₀.statLog = [] := hstarted.statLog
  have hclock : k₀.pitTicks = 0 := hstarted.pitTicks
  have hdistinct : ∀ q ∈ k₀.members, (k₀.pcbs q).pid = (k₀.pcbs p).pid → q = p := fun q hq hpid =>
    List.inj_on_of_nodup_map hstarted.distinct hq hp hpid
  refine ⟨hclock, hstarted.counter, ⟨?_, ?_⟩,
    ⟨mem_holders hp, rfl, hdistinct, (hstarted.pids p hp).2⟩, ?_⟩
  · simp only [hlog]
    exact List.Pairwise.nil
  · simp only [hlog]
    rintro line ⟨⟩
  · rcases List.mem_cons.1 hp with hcur | hready
    · refine .running hcur hstarted.idle ?_ ?_
      · simp only [hlog]
        rfl
      · simp only [hclock]
        rfl
    · have hnone : waitingOf k₀.statLog (k₀.pcbs p).pid = (0, some 0) := by
        rw [hlog]
        rfl
      refine .waiting hready hnone (Nat.zero_le _) ?_ ?_
      · simp only [hclock]
        rfl
      · simp only [hclock]
        rfl

/-- The invariants along a metered run in which neither the clock nor the pids wrap. -/
theorem measured_run (hboot : kmain L B = some k₀) {p : Nat} (hp : p ∈ k₀.members)
    {es : List Event} {s : Kernel × Meter}
    (h : Trace (MeteredStep L (k₀.store.mem.pfa.exhausted = false)) (k₀, Meter.zero) es s)
    (hticks : (es.map Event.ticks).sum < 2 ^ 32)
    (hforks : B.mods.length + 2 + (es.map Event.forks).sum < 2 ^ 32) :
    Inv L (Reserved L B.mods) (k₀.store.mem.pfa.exhausted = false) s.1 ∧
      Measured B p (k₀.pcbs p).pid (es.map Event.forks).sum (es.map Event.ticks).sum s := by
  induction h with
  | start => exact ⟨kmain_inv hboot, measured_start hboot hp⟩
  | @next es e s s' hs ha ih =>
      rw [List.map_append, List.sum_append, List.map_singleton, List.sum_singleton] at hticks hforks
      obtain ⟨hinv, hmeasured⟩ := ih (by omega) (by omega)
      rw [List.map_append, List.map_append, List.sum_append, List.sum_append, List.map_singleton,
        List.map_singleton, List.sum_singleton, List.sum_singleton]
      exact ⟨hinv.step ha.step, hmeasured.step hinv hticks (by omega) ha⟩

/-- The rows of a process are in the order of the log. -/
theorem InOrder.pidRows (h : InOrder k) (x : Nat) :
    SoKernel.pidRows k.statLog x = k.statLog.filter fun line => line.pid = x := by
  refine List.mergeSort_of_pairwise ((h.sorted.filter _).imp fun hle => ?_)
  exact decide_eq_true hle

/-- For a process of boot, the notebook computes from the log the ticks that the process has
waited in the ready queue and, once it has ended, the ticks that it has waited and run. -/
theorem metrics_of_boot_process (hboot : kmain L B = some k₀) {p : Nat} (hp : p ∈ k₀.members)
    {es : List Event} {m : Meter}
    (h : Trace (MeteredStep L (k₀.store.mem.pfa.exhausted = false)) (k₀, Meter.zero) es (k, m))
    (hticks : (es.map Event.ticks).sum < 2 ^ 32)
    (hforks : B.mods.length + 2 + (es.map Event.forks).sum < 2 ^ 32)
    (hout : p ∉ k.sched.ready.toList) :
    (computePidMetrics k.statLog (k₀.pcbs p).pid).waitingTime = m.waited p ∧
      (p ∉ k.members ∨ k.idle = true →
        (computePidMetrics k.statLog (k₀.pcbs p).pid).turnaroundTime = m.waited p + m.ran p) := by
  obtain ⟨-, hmeasured⟩ := measured_run hboot hp h hticks hforks
  obtain ⟨-, -, horder, -, hstage⟩ := hmeasured
  have hrows := horder.pidRows (k₀.pcbs p).pid
  have hwaiting : (computePidMetrics k.statLog (k₀.pcbs p).pid).waitingTime =
      (waitingOf k.statLog (k₀.pcbs p).pid).1 := by
    simp only [computePidMetrics, hrows, waitingOf]
  have hturnaround : ∀ t, lastEnd k.statLog (k₀.pcbs p).pid = some t →
      (computePidMetrics k.statLog (k₀.pcbs p).pid).turnaroundTime = t := by
    intro t ht
    have hsame : (k.statLog.filter fun line => line.pid = (k₀.pcbs p).pid).filter
        (fun line => line.event = .terminated) = k.statLog.filter fun line =>
          line.pid = (k₀.pcbs p).pid ∧ line.event = .terminated := by
      rw [List.filter_filter]
      refine List.filter_congr fun line _ => ?_
      rw [Bool.and_comm, ← Bool.decide_and]
    simp only [computePidMetrics, hrows, hsame]
    unfold lastEnd at ht
    rw [ht]
    rfl
  rw [hwaiting]
  cases hstage with
  | waiting waits log past sum all => exact absurd waits hout
  | running runs idle log all =>
      refine ⟨log, fun hend => ?_⟩
      rcases hend with hend | hend
      · exact absurd (runs ▸ k.current_mem) hend
      · exact Bool.noConfusion (idle.symm.trans hend)
  | ended gone log last => exact ⟨log, fun _ => hturnaround _ last⟩

theorem metrics_of_boot_process_one_tick :
    ∃ k₀ k₁ out, kmain sampleLayout (sampleBoot 2 (by decide) .rr) = some k₀ ∧
      k₀.trap sampleLayout (.timer sampleTick) = some (k₁, out) ∧
      (computePidMetrics k₁.statLog k₀.current.pid).waitingTime = 0 := by
  obtain ⟨k₀, hboot, -⟩ := sampleBoot_runs (show 0 < 2 by decide) (by decide) SchedulingPolicy.rr
  have hinv := kmain_inv hboot
  have hstarted := kmain_started hboot
  have htrap := trap_timer (L := sampleLayout) hstarted.idle sampleTick
  have hremaining : k₀.sched.remainingTicks = 3 := hstarted.quantum.2
  have hsched := @tick_slice k₀ sampleTick hstarted.policy hstarted.preemption (by decide)
    (by omega) fun hz => hinv.zero_notMem (hz ▸ k₀.current_mem)
  have hnot := (List.nodup_cons.1 hinv.members_nodup).1
  have hstep : MeteredStep sampleLayout (k₀.store.mem.pfa.exhausted = false) (k₀, Meter.zero)
      (.trap (.timer sampleTick) _) (_, Meter.zero.charge k₀ 1) := ⟨.trap htrap, rfl⟩
  have hmetrics := metrics_of_boot_process hboot k₀.current_mem (Trace.start.next hstep)
    (by decide : (1 : Nat) < 2 ^ 32) (by decide : (2 + 2 + 0 : Nat) < 2 ^ 32)
    (by rw [hsched]; exact hnot)
  refine ⟨k₀, _, _, hboot, htrap, hmetrics.1.trans ?_⟩
  exact (charge_running hinv.members_nodup Meter.zero 1).1

end Metrics

end Kernel

end SoKernel
