import SoKernel.Io.SerialPort
import SoKernel.Kernel.Progress
import SoKernel.Scheduler.Metrics
import SoKernel.Scheduler.BurstPrediction

/-!
# The log on the serial line

The kernel writes its log and its other messages to the same serial line, and the notebooks read
the file that the line is written to.  This module follows a line of the log from the scheduler to
the notebook: through the array that it is put together in, the serial chip, the lines of the file
and the parser.

Main results:

- Theorem {lit}`reachable_word32`: what is logged fits the fields of a line.
- Theorem {lit}`Sent.plain`: nothing that the kernel sends besides is taken for a line of the log.
- Theorem {lit}`log_read_back`: from the bytes that the chip sends the notebook reads the log.
-/

namespace SoKernel

/-- {lit}`STAT_EVENT_CREATED` to {lit}`STAT_EVENT_TERMINATED`. -/
def StatEvent.id : StatEvent → Nat
  | .created => 0
  | .scheduled => 1
  | .yielded => 2
  | .preempted => 3
  | .terminated => 4

/-- {lit}`STAT_CONTEXT_NONE` to {lit}`STAT_CONTEXT_EXIT`. -/
def StatContext.id : StatContext → Nat
  | .none => 0
  | .yield => 1
  | .pit => 2
  | .fork => 3
  | .exec => 4
  | .exit => 5

namespace Kernel

/-! ## What is logged -/

/-- The clock, the pids and the log are in 32 bits. -/
structure Word32 (k : Kernel) : Prop where
  clock : k.pitTicks < 2 ^ 32
  counter : k.sched.nextPid < 2 ^ 32
  pids : ∀ p ∈ k.members, (k.pcbs p).pid < 2 ^ 32
  log : ∀ line ∈ k.statLog, line.pid < 2 ^ 32 ∧ line.ticks < 2 ^ 32

section Logs

variable {L : Layout} {R : Nat → Prop} {safe : Prop} {B : BootInfo} {k k₀ k' : Kernel}

/-- The kernel stack does not change the pid. -/
theorem allocKernelStack_pid (L : Layout) (k : Kernel) (pcb p : Nat) :
    ((k.allocKernelStack L pcb).2.pcbs p).pid = (k.pcbs p).pid := by
  unfold allocKernelStack
  simp only
  split
  · rfl
  · simp only [setPcb]
    by_cases hp : p = pcb
    · subst hp
      rw [Function.update_self]
    · rw [Function.update_of_ne hp]

/-- The child is logged with its pid and the time. -/
theorem forkEnqueue_pids (k : Kernel) (frame : SyscallFrame) (child pid pdt : Nat) :
    ∀ line ∈ (k.forkEnqueue frame child pid pdt).2.statLog,
      line ∈ k.statLog ∨ line.pid = (k.pcbs child).pid ∧ line.ticks = k.pitTicks := by
  unfold forkEnqueue
  simp only
  cases henq : (k.setPcb child _).schedulerEnqueueReady child with
  | none => exact fun line hline => .inl hline
  | some k₁ =>
      have hsame : k₁.statLog = k.statLog ∧ k₁.pitTicks = k.pitTicks ∧
          (k₁.pcbs child).pid = (k.pcbs child).pid := by
        unfold schedulerEnqueueReady at henq
        split at henq
        · cases henq
        · split at henq
          · cases henq
            refine ⟨rfl, rfl, ?_⟩
            simp only [setPcb, Function.update_self, childReady]
          · cases henq
      intro line hline
      rcases List.mem_append.1 hline with hline | hline
      · rw [hsame.1] at hline
        exact .inl hline
      · rw [List.mem_singleton.1 hline]
        exact .inr ⟨hsame.2.2, hsame.2.1⟩

/-- A fork logs the pid that it takes. -/
theorem sysFork_pids (L : Layout) (k : Kernel) (frame : SyscallFrame) :
    ∀ line ∈ (k.sysFork L frame).2.statLog,
      line ∈ k.statLog ∨ line.pid = k.sched.nextPid ∧ line.ticks = k.pitTicks := by
  unfold sysFork
  simp only
  split
  · exact fun line hline => .inl hline
  · split
    · exact fun line hline => .inl hline
    · unfold forkSpace
      simp only
      split
      · exact fun line hline => .inl hline
      · unfold forkStack
        simp only
        split
        · intro line hline
          refine .inl ?_
          change line ∈ (allocKernelStack L _ _).2.statLog at hline
          rw [(allocKernelStack_clock ..).1] at hline
          exact hline
        · intro line hline
          rcases forkEnqueue_pids _ _ _ _ _ line hline with hline | ⟨hpid, hticks⟩
          · rw [(allocKernelStack_clock ..).1] at hline
            exact .inl hline
          · rw [allocKernelStack_pid] at hpid
            rw [(allocKernelStack_clock ..).2] at hticks
            refine .inr ⟨?_, hticks⟩
            rw [hpid]
            simp only [setPcb, withMem, Function.update_self]
            rfl

/-- An exec logs the pid of its process. -/
theorem execModule_pids (k : Kernel) (frame : SyscallFrame) (a b : Nat) :
    ∀ line ∈ (k.execModule frame a b).2.1.statLog,
      line ∈ k.statLog ∨ line.pid = k.current.pid ∧ line.ticks = k.pitTicks := by
  unfold execModule
  simp only
  split
  · exact fun line hline => .inl hline
  · split
    · exact fun line hline => .inl hline
    · intro line hline
      rcases List.mem_append.1 hline with hline | hline
      · exact .inl hline
      · rw [List.mem_singleton.1 hline]
        refine .inr ⟨?_, rfl⟩
        simp only [setPcb, withMem, Function.update_self]
        rfl

/-- A scheduling call logs the pids of processes it knows. -/
theorem schedule_pids (hz : 0 ∉ k.members) (c : ProcessContext) (requeue : Bool)
    (id : StatContext) :
    ∀ line ∈ (k.schedulerScheduleFromContext c requeue id).2.1.statLog, line ∈ k.statLog ∨
      (∃ p ∈ k.members, line.pid = (k.pcbs p).pid) ∧ line.ticks = k.pitTicks := by
  have hcases := schedule_cases c requeue id hz
  generalize k.schedulerScheduleFromContext c requeue id = r at hcases
  cases hcases with
  | sliceLeft hrr hreq hleft => exact fun line hline => .inl hline
  | refused hreq hslice hfull => exact fun line hline => .inl hline
  | alone hreq hempty => exact fun line hline => .inl hline
  | @switch next ready hslice hroom hperm hfifo =>
      have hnext : next ∈ k.members := by
        rcases List.mem_append.1 (hperm.mem_iff.2 List.mem_cons_self) with hready | hself
        · exact List.mem_cons_of_mem _ hready
        · cases requeue with
          | false => cases hself
          | true =>
              rw [if_pos rfl, List.mem_singleton] at hself
              exact hself ▸ k.current_mem
      intro line hline
      rcases List.mem_append.1 hline with hline | hline
      · exact .inl hline
      · rcases List.mem_append.1 hline with hline | hline
        · split at hline
          · rw [List.mem_singleton.1 hline]
            exact .inr ⟨⟨_, k.current_mem, saved_pid ..⟩, rfl⟩
          · cases hline
        · rw [List.mem_singleton.1 hline]
          exact .inr ⟨⟨next, hnext, saved_pid ..⟩, rfl⟩

/-- A scheduling call keeps the log in 32 bits. -/
theorem Word32.schedule_log (h : Word32 k) (hz : 0 ∉ k.members) (c : ProcessContext)
    (requeue : Bool) (id : StatContext) :
    ∀ line ∈ (k.schedulerScheduleFromContext c requeue id).2.1.statLog,
      line.pid < 2 ^ 32 ∧ line.ticks < 2 ^ 32 := by
  intro line hline
  rcases schedule_pids hz c requeue id line hline with hold | ⟨⟨p, hp, hpid⟩, hticks⟩
  · exact h.log line hold
  · rw [hpid, hticks]
    exact ⟨h.pids p hp, h.clock⟩

/-- The clock wraps at 32 bits. -/
theorem Word32.tick (h : Word32 k) : Word32 k.tick :=
  ⟨Nat.mod_lt _ (by norm_num), h.counter, h.pids, h.log⟩

/-- An exit logs the pid of its process. -/
theorem Word32.markTerminated (h : Word32 k) : Word32 k.markTerminated := by
  refine ⟨h.clock, h.counter, fun p hp => ?_, fun line hline => ?_⟩
  · rw [markTerminated_pcbs]
    split
    · exact h.pids _ k.current_mem
    · exact h.pids p hp
  · rcases List.mem_append.1 hline with hline | hline
    · exact h.log line hline
    · rw [List.mem_singleton.1 hline]
      refine ⟨?_, h.clock⟩
      change (Function.update k.pcbs k.sched.currentPcb _ k.sched.currentPcb).pid < 2 ^ 32
      rw [Function.update_self]
      exact h.pids _ k.current_mem

/-- A trap logs the time and pids of 32 bits. -/
theorem Word32.trap_log (h : Word32 k) (hinv : Inv L R safe k) {t : Trap} {out : ProcessContext}
    (ht : k.trap L t = some (k', out)) :
    ∀ line ∈ k'.statLog, line.pid < 2 ^ 32 ∧ line.ticks < 2 ^ 32 := by
  have hz := hinv.zero_notMem
  obtain ⟨-, hcase⟩ := trap_cases ht
  cases hcase with
  | quiet hquiet => exact h.log
  | @timer frame code k' context henabled hring hrun =>
      have hlog := h.tick.schedule_log (k := k.tick) hz (frameUserToContext frame) true .pit
      rw [hrun] at hlog
      exact hlog
  | plain hring hnumber => exact h.log
  | @exec frame frame' kernelByte r k' hring hnumber hrun =>
      rcases sysExec_cases hrun with heq | ⟨path, a, b, -, -, heq⟩
      · cases heq
        exact h.log
      · have hlog := k.execModule_pids frame a b
        rw [← heq] at hlog
        intro line hline
        rcases hlog line hline with hold | ⟨hpid, hticks⟩
        · exact h.log line hold
        · rw [hpid, hticks]
          exact ⟨h.pids _ k.current_mem, h.clock⟩
  | @fork frame kernelByte r k' hring hnumber hrun =>
      have hlog := k.sysFork_pids L frame
      rw [hrun] at hlog
      intro line hline
      rcases hlog line hline with hold | ⟨hpid, hticks⟩
      · exact h.log line hold
      · rw [hpid, hticks]
        exact ⟨h.counter, h.clock⟩
  | @yield frame frame' kernelByte r k' hring hnumber hrun =>
      obtain ⟨code, k₁, context, hsched, hyield⟩ := sysYield_eq hz hinv.holding.cr3 frame
      have hlog := h.schedule_log hz (ProcessContext.ofWords frame.words) true .yield
      rw [hsched] at hlog
      rw [hyield] at hrun
      cases hrun
      exact hlog
  | @exit frame frame' kernelByte r k' hring hnumber hrun =>
      have hlog := h.markTerminated.schedule_log (k := k.markTerminated) hz
        (ProcessContext.ofWords frame.words) false .exit
      have hexit := @sysExit_eq k hinv.current_ne frame
      generalize k.markTerminated.schedulerScheduleFromContext (ProcessContext.ofWords frame.words)
        false .exit = r' at hlog hexit
      obtain ⟨code, k₂, context⟩ := r'
      rw [hexit rfl] at hrun
      cases hrun
      split
      · exact hlog
      · exact hlog

/-- The counter of pids wraps at 32 bits. -/
theorem pidAfter_lt (pid : Nat) : pidAfter pid < 2 ^ 32 := by
  by_cases hzero : u32 (pid + 1) = 0
  · rw [pidAfter, if_pos hzero]
    norm_num
  · rw [pidAfter, if_neg hzero]
    exact Nat.mod_lt _ (by norm_num)

/-- The processes of a trap have pids that were there, or the one of the counter. -/
theorem Word32.trap_pids (h : Word32 k) (hinv : Inv L R safe k) {t : Trap} {out : ProcessContext}
    (ht : k.trap L t = some (k', out)) :
    k'.sched.nextPid < 2 ^ 32 ∧ ∀ p ∈ k'.members, (k'.pcbs p).pid < 2 ^ 32 := by
  cases (hinv.trap_effect ht).2 with
  | requeued kept members =>
      refine ⟨kept.nextPid ▸ h.counter, fun p hp => ?_⟩
      rw [kept.pids p]
      exact h.pids p (members.mem_iff.1 hp)
  | gaveUp aside counter =>
      refine ⟨?_, fun p hp => ?_⟩
      · rcases counter with hcounter | hcounter
        · exact hcounter ▸ h.counter
        · rw [hcounter]
          exact pidAfter_lt _
      · rw [aside.members] at hp
        rw [aside.pcbs p (mem_holders hp)]
        exact h.pids p hp
  | executed executed =>
      refine ⟨by rw [executed.sched]; exact h.counter, fun p hp => ?_⟩
      have hp' : p ∈ k.members := by
        rw [Kernel.members, executed.sched] at hp
        exact hp
      by_cases hcur : p = k.sched.currentPcb
      · have hpcb := executed.pcb
        rw [current, executed.sched] at hpcb
        rw [hcur, hpcb]
        exact h.pids _ k.current_mem
      · rw [executed.others p hcur]
        exact h.pids p hp'
  | @forked frame child d base call forked =>
      refine ⟨?_, fun p hp => ?_⟩
      · rw [forked.counter]
        exact pidAfter_lt _
      · rw [forked.members] at hp
        rcases List.mem_append.1 hp with hp | hp
        · rw [forked.others p (mem_holders hp)]
          exact h.pids p hp
        · rw [List.mem_singleton.1 hp, forked.pcb]
          exact h.counter
  | exited call exited =>
      refine ⟨exited.nextPid ▸ h.counter, fun p hp => ?_⟩
      rw [exited.pids p]
      exact h.pids p (List.mem_cons_of_mem _ (exited.ready.mem_iff.2 hp))
  | idle call kept members =>
      refine ⟨lt_of_eq_of_lt kept.nextPid h.counter, fun p hp => ?_⟩
      have hpid : (k'.pcbs p).pid = (k.pcbs p).pid := kept.pids p
      rw [hpid]
      exact h.pids p (members ▸ hp)

/-- In every reachable state the clock, the pids and the log are in 32 bits. -/
theorem reachable_word32 (hboot : kmain L B = some k₀) (hk : Reachable L k₀ k) : Word32 k := by
  have hinv := kmain_inv hboot
  induction hk with
  | boot =>
      have hstarted := kmain_started hboot
      have hcount := B.mods_count
      have hcounter := hstarted.counter
      refine ⟨by rw [hstarted.pitTicks]; norm_num, by omega, fun p hp => ?_, fun line hline => ?_⟩
      · have hpid := (hstarted.pids p hp).2
        omega
      · rw [hstarted.statLog] at hline
        cases hline
  | trap hk ht ih =>
      obtain ⟨hcounter, hpids⟩ := ih.trap_pids (hinv.reachable hk) ht
      exact ⟨(reachable_burstHistory hboot (.trap hk ht)).ticks, hcounter, hpids,
        ih.trap_log (hinv.reachable hk) ht⟩
  | write hk hsafe hw ih =>
      obtain ⟨i, j, f, hpage⟩ := (hinv.reachable hk).writePage hsafe hw
      rw [hpage.kernel]
      exact ⟨ih.clock, ih.counter, ih.pids, ih.log⟩

end Logs

end Kernel

/-! ## The file of the serial line -/

/-- A line of the log, with what was in its array before, or another message. -/
inductive Message where
  | stat (junk : Nat → UInt8) (line : StatLine)
  | other (log : List UInt8)

/-- The text "[STAT]". -/
def statMark : List UInt8 :=
  [91, 83, 84, 65, 84, 93]

namespace Message

/-- The argument of {lit}`serial_write`. -/
def log : Message → List UInt8
  | stat junk line =>
      (statBuffer junk line.pid line.ticks line.event.id line.context.id).string
  | other log => log

/-- The line of the log in a message. -/
def statLine : Message → Option StatLine
  | stat _ line => some line
  | other _ => none

/-- A message other than a line of the log is one line, also for a reader that takes a carriage
return for the end of one, and does not look like one of the log. -/
def Plain : Message → Prop
  | stat _ _ => True
  | other log => 10 ∉ SerialPort.text log ∧ 13 ∉ SerialPort.text log ∧
      ¬ statMark <+: SerialPort.text log

end Message

/-- The text mode of Python's {lit}`open`: a carriage return is read as a newline, and a newline
directly behind one is dropped; {lit}`cr` says that a carriage return was the last byte. -/
def universalNewlines : Bool → List UInt8 → List UInt8
  | _, [] => []
  | cr, c :: rest =>
      if c = 13 then 10 :: universalNewlines true rest
      else if cr ∧ c = 10 then universalNewlines false rest
      else c :: universalNewlines false rest

/-- Python's {lit}`readlines`, on what the text mode makes of a file. -/
def readlines : List UInt8 → List (List UInt8)
  | [] => []
  | c :: rest =>
      if c = 10 then [10] :: readlines rest
      else
        match readlines rest with
        | [] => [[c]]
        | line :: more => (c :: line) :: more

/-- What the notebook collects from a file: the values of the fields of each line of the log. -/
def readStats (file : List UInt8) : List (List (Option Nat)) :=
  (readlines (universalNewlines false file)).filterMap fun line =>
    (parseStat line).map fun fields => fields.map decimalValue

/-- The values of a line of the log. -/
def StatLine.row (line : StatLine) : List (Option Nat) :=
  [some line.pid, some line.ticks, some line.event.id, some line.context.id]

section Files

variable {line : StatLine} {t rest : List UInt8}

/-- The text mode leaves bytes without a carriage return as they are. -/
theorem universalNewlines_append (ht : 13 ∉ t) (rest : List UInt8) :
    universalNewlines false (t ++ rest) = t ++ universalNewlines false rest := by
  induction t with
  | nil => rfl
  | cons c t ih =>
      rw [List.mem_cons, not_or] at ht
      rw [List.cons_append, universalNewlines, if_neg (Ne.symm ht.1), if_neg (by simp), ih ht.2,
        List.cons_append]

/-- A line comes before the lines of the rest. -/
theorem readlines_append (ht : 10 ∉ t) (rest : List UInt8) :
    readlines (t ++ [10] ++ rest) = (t ++ [10]) :: readlines rest := by
  induction t with
  | nil => rfl
  | cons c t ih =>
      rw [List.mem_cons, not_or] at ht
      rw [List.cons_append, List.cons_append, readlines, if_neg (Ne.symm ht.1), ih ht.2]

/-- A line of a file, and the rest of it. -/
theorem readStats_append (hnewline : 10 ∉ t) (hreturn : 13 ∉ t) (file : List UInt8) :
    readStats (t ++ [10] ++ file) =
      (((parseStat (t ++ [10])).map fun fields => fields.map decimalValue).toList) ++
        readStats file := by
  have hline : 13 ∉ t ++ [10] := by
    rw [List.mem_append, List.mem_singleton, not_or]
    exact ⟨hreturn, by decide⟩
  rw [readStats, universalNewlines_append hline, readlines_append hnewline, readStats,
    List.filterMap_cons]
  cases parseStat (t ++ [10]) with
  | none => rfl
  | some fields => rfl

/-- A line that is not of the log is skipped. -/
theorem parseStat_plain (ht : ¬ statMark <+: t) : parseStat (t ++ [10]) = none := by
  unfold parseStat
  refine if_neg fun hmark => ?_
  have hprefix : statMark <+: t ++ [10] := List.isPrefixOf_iff_prefix.1 hmark
  rcases List.prefix_concat_iff.1 hprefix with heq | hshort
  · have hmem : (10 : UInt8) ∈ statMark := heq ▸ List.mem_append_right _ List.mem_cons_self
    revert hmem
    decide
  · exact ht hshort

/-- The constants of events and contexts are in 32 bits. -/
theorem id_lt (line : StatLine) : line.event.id < 2 ^ 32 ∧ line.context.id < 2 ^ 32 := by
  constructor
  · cases line.event <;> norm_num [StatEvent.id]
  · cases line.context <;> norm_num [StatContext.id]

/-- The characters of a line of the log. -/
theorem notMem_stat {c : UInt8} (htag : c ∉ statTag) (hc : c < 44) :
    c ∉ statTag ++ statFields line.pid line.ticks line.event.id line.context.id := by
  intro hmem
  rcases List.mem_append.1 hmem with hmem | hmem
  · exact htag hmem
  · exact absurd (mem_statFields hmem).1 (UInt8.not_le.2 hc)

/-- The text of a line of the log. -/
theorem text_stat (junk : Nat → UInt8) (hpid : line.pid < 2 ^ 32) (hticks : line.ticks < 2 ^ 32) :
    SerialPort.text (Message.stat junk line).log =
      statTag ++ statFields line.pid line.ticks line.event.id line.context.id := by
  have hsent := serialWrite_statBuffer junk hpid hticks (id_lt line).1 (id_lt line).2
  rw [serialWrite] at hsent
  rw [Message.log, List.append_cancel_right hsent,
    SerialPort.text_eq (notMem_stat (by decide) (by decide))]

/-- The notebook reads the lines of the log from the messages of a file. -/
theorem readStats_lines {msgs : List Message} (hplain : ∀ m ∈ msgs, m.Plain)
    (hword : ∀ line ∈ msgs.filterMap Message.statLine, line.pid < 2 ^ 32 ∧ line.ticks < 2 ^ 32) :
    readStats (SerialPort.lines (msgs.map Message.log)) =
      (msgs.filterMap Message.statLine).map StatLine.row := by
  induction msgs with
  | nil => rfl
  | cons m msgs ih =>
      have hfile : SerialPort.lines ((m :: msgs).map Message.log) =
          SerialPort.text m.log ++ [10] ++ SerialPort.lines (msgs.map Message.log) := by
        simp only [SerialPort.lines, List.map_cons, List.flatMap_cons]
      have hrest := fun h => ih (fun m hm => hplain m (List.mem_cons_of_mem _ hm)) h
      rw [hfile]
      cases m with
      | stat junk line =>
          rw [List.filterMap_cons_some (by rfl)] at hword ⊢
          obtain ⟨hpid, hticks⟩ := hword line List.mem_cons_self
          rw [text_stat junk hpid hticks, readStats_append (notMem_stat (by decide) (by decide))
            (notMem_stat (by decide) (by decide)), parseStat_line, List.map_cons,
            hrest fun l hl => hword l (List.mem_cons_of_mem _ hl)]
          refine congrArg (· :: _) ?_
          simp only [List.map_cons, List.map_nil, decimalValue_decimal, StatLine.row]
      | other log =>
          obtain ⟨hnewline, hreturn, hmark⟩ := hplain _ List.mem_cons_self
          rw [List.filterMap_cons_none (by rfl)] at hword ⊢
          rw [Message.log, readStats_append hnewline hreturn, parseStat_plain hmark]
          exact hrest hword

/-- The array of {lit}`log_sjf_pick` has its line. -/
theorem sjfBuffer_string (junk : Nat → UInt8) {pid burst : Nat} (hpid : pid < 2 ^ 32)
    (hburst : burst < 2 ^ 32) : (sjfBuffer junk pid burst).string =
      sjfTexts.1 ++ decimal pid ++ sjfTexts.2 ++ decimal burst := by
  have hbuffer : sjfBuffer junk pid burst = CharBuffer.put (.fresh junk) 0
      (sjfTexts.1 ++ decimal pid ++ sjfTexts.2 ++ decimal burst ++ [0]) := by
    simp only [sjfBuffer, appendLiteral_eq, appendU32_eq _ _ hpid, appendU32_eq _ _ hburst,
      CharBuffer.put_append, CharBuffer.put_singleton, List.length_append, Nat.add_assoc]
  have hp := decimal_length hpid
  have hb := decimal_length hburst
  have htexts : sjfTexts.1.length = 18 ∧ sjfTexts.2.length = 12 := by decide
  rw [hbuffer, CharBuffer.string_put]
  · intro hz
    simp only [List.mem_append] at hz
    rcases hz with ((hz | hz) | hz) | hz
    · revert hz
      decide
    · exact absurd (decimal_digits hz).1 (by decide)
    · revert hz
      decide
    · exact absurd (decimal_digits hz).1 (by decide)
  · simp only [List.length_append]
    omega

/-- The characters of a text that are no digits. -/
theorem digits_notMem {c : UInt8} {pid burst : Nat} (hfirst : c ∉ sjfTexts.1)
    (hsecond : c ∉ sjfTexts.2) (hc : c < 48) :
    c ∉ sjfTexts.1 ++ decimal pid ++ sjfTexts.2 ++ decimal burst := by
  intro hmem
  simp only [List.mem_append] at hmem
  rcases hmem with ((hmem | hmem) | hmem) | hmem
  · exact hfirst hmem
  · exact absurd (decimal_digits hmem).1 (UInt8.not_le.2 hc)
  · exact hsecond hmem
  · exact absurd (decimal_digits hmem).1 (UInt8.not_le.2 hc)

/-- What {lit}`log_sjf_pick` sends is not taken for a line of the log. -/
theorem plain_sjf (junk : Nat → UInt8) {pid burst : Nat} (hpid : pid < 2 ^ 32)
    (hburst : burst < 2 ^ 32) : (Message.other (sjfBuffer junk pid burst).string).Plain := by
  rw [Message.Plain, sjfBuffer_string junk hpid hburst,
    SerialPort.text_eq (digits_notMem (by decide) (by decide) (by decide))]
  refine ⟨digits_notMem (by decide) (by decide) (by decide),
    digits_notMem (by decide) (by decide) (by decide), fun hmark => ?_⟩
  have hfront : statMark <+: sjfTexts.1 := by
    rw [List.append_assoc, List.append_assoc] at hmark
    exact List.prefix_of_prefix_length_le hmark (List.prefix_append _ _) (by decide)
  revert hfront
  decide

/-- What {lit}`serial_write_hex` sends is not taken for a line of the log. -/
theorem plain_hex (junk : Nat → UInt8) (num : Nat) :
    (Message.other (SerialPort.hexBuffer junk num).string).Plain := by
  rw [Message.Plain, SerialPort.hexBuffer_string,
    SerialPort.text_eq (SerialPort.hexText_ne_zero 8 num)]
  refine ⟨SerialPort.hexText_notMem (by decide) 8 num,
    SerialPort.hexText_notMem (by decide) 8 num, fun hmark => ?_⟩
  exact SerialPort.hexText_notMem (c := 91) (by decide) 8 num
    (hmark.subset List.mem_cons_self)

/-- The texts that the kernel sends as they stand in its source. -/
def kernelTexts : List String := [
  -- kmain.c
  "[SYS - PAGING] PFA inicializado com sucesso",
  "[SYS - PAGING] Kernel modificada para páginas com 4KB",
  "[SYS - HEAP] Kernel Heap inicializado",
  "[SYS] Iniciou GDT",
  "[SCHED] preempcao PIT habilitada",
  "Criando PCB para modulo GRUB",
  "[SCHED] fila READY cheia ao inserir modulo",
  "Executando modulo em user mode",
  "Falha ao criar PCB para modulos GRUB",
  "Nenhum modulo encontrado",
  -- tss.c
  "[SYS - TSS] TSS inicializado",
  -- idt.c
  "[SYS - INTERRUPTS] Iniciou handler do timer",
  "[SYS - INTERRUPTS] Iniciou handler de teclado",
  "[SYS - INTERRUPTS] Registrou handler syscall (0x80)",
  "[SYS - INTERRUPTS] Iniciou IDT",
  "[SYS - INTERRUPTS] Iniciou PIC",
  -- interrupt_handler.c
  "[SYS - INTERRUPTS] Interrupção recebida: ",
  -- pit.c
  "[PIT] preempting path ativo",
  -- process.c
  "[process] alloc_page_frames: frame_0=",
  "[process] alloc_page_frames: frame_1=",
  "[process] copy_module: tamanho=",
  "[process] copy_module: copia concluida",
  "[process] alloc_stack: pd_index=",
  "[process] alloc_stack: pt_index=",
  "[process] alloc_stack: stack_frame=",
  "[process] alloc_stack: concluido",
  "[process] create_pcb: inicio",
  "[process] PCB alocado em:",
  "[process] PDT alocada em:",
  "[process] PDE do kernel copiada (index 768)",
  "[process] create_pcb: concluido",
  "[process] create_pcb_grub_modules: inicio",
  "[process] PT alocada para PDT[0]:",
  "[process] create_pcb_grub_modules: concluido",
  "[process] run_user_mode_module: trocando cr3",
  "[process] run_user_mode_module: entrando em user mode",
  -- syscall.c
  "[SYSCALL] exec: modulo nao encontrado",
  "[SYSCALL] exec: processo corrente ausente",
  "[SYSCALL] exec: falha ao montar nova imagem",
  "[SYSCALL] exec concluido",
  "[SYSCALL] fork: processo corrente ausente",
  "[SYSCALL] fork: falha ao clonar memoria",
  "[SYSCALL] fork: falha ao clonar kstack",
  "[SYSCALL] fork: fila ready cheia",
  "[SYSCALL] fork concluido",
  "[SYSCALL] yield: falha no scheduler",
  "[SYSCALL] exit: processo corrente ausente",
  "[SYSCALL] exit: sem processos prontos, entrando em idle",
  "[SYSCALL] syscall recebida: ",
  "[SYSCALL] syscall_test chamada!",
  "[SYSCALL] syscall_write chamada!",
  "[SYSCALL] syscall desconhecida!"]

/-- The bytes of a text of the source, which is in UTF-8. -/
def Message.literal (text : String) : Message :=
  .other text.toUTF8.data.toList

/-- None of the texts of the source is taken for a line of the log. -/
theorem plain_literal {text : String} (h : text ∈ kernelTexts) : (Message.literal text).Plain := by
  unfold Message.literal Message.Plain
  revert text
  decide

/-- What the kernel sends: the lines of its log, the texts of its source, numbers, and the picks of
the policy. -/
inductive Sent : Message → Prop where
  | stat (junk : Nat → UInt8) (line : StatLine) : Sent (.stat junk line)
  | text {text : String} (h : text ∈ kernelTexts) : Sent (.literal text)
  | hex (junk : Nat → UInt8) (num : Nat) : Sent (.other (SerialPort.hexBuffer junk num).string)
  | sjf (junk : Nat → UInt8) {pid burst : Nat} (hpid : pid < 2 ^ 32) (hburst : burst < 2 ^ 32) :
      Sent (.other (sjfBuffer junk pid burst).string)

/-- Nothing that the kernel sends besides its log is taken for a line of it. -/
theorem Sent.plain {m : Message} (h : Sent m) : m.Plain := by
  cases h with
  | stat junk line => exact trivial
  | text h => exact plain_literal h
  | hex junk num => exact plain_hex junk num
  | sjf junk hpid hburst => exact plain_sjf junk hpid hburst

/-- Messages other than those of the log. -/
def sampleMessages : List Message := [
  .literal "[SYSCALL] syscall recebida: ",
  .other (SerialPort.hexBuffer (fun _ => 0) 5).string,
  .other (sjfBuffer (fun _ => 0) 3 7).string]

theorem sampleMessages_sent : ∀ m ∈ sampleMessages, Sent m := by
  intro m hm
  simp only [sampleMessages, List.mem_cons, List.not_mem_nil, or_false] at hm
  rcases hm with rfl | rfl | rfl
  · exact .text (by decide)
  · exact .hex _ 5
  · exact .sjf _ (by norm_num) (by norm_num)

end Files

/-! ## From the scheduler to the notebook -/

section Runs

variable {L : Layout} {B : BootInfo} {k₀ k : Kernel}

/-- The notebook reads the log of the kernel.  In every reachable state, let the kernel have sent
the lines of its log, with other messages between them, through a chip that has sent nothing
before: then along every schedule of the chip in which something changes whenever something can,
the file ends up with bytes from which the notebook reads the log, line by line. -/
theorem log_read_back (hboot : kmain L B = some k₀) (hk : Reachable L k₀ k) {msgs : List Message}
    (hplain : ∀ m ∈ msgs, m.Plain) (hlog : msgs.filterMap Message.statLine = k.statLog)
    {u : Uart} (hu : u.stream = []) (c : Nat → Uart × List PortAction)
    (hstart : c 0 = (u, SerialPort.serialWrites 0x3F8 (msgs.map Message.log)))
    (hstep : ∀ n, c (n + 1) = c n ∨ (Uart.device true 0x3F8).Step (c n) (c (n + 1)))
    (hfair : ∀ n, (∃ c', (Uart.device true 0x3F8).Step (c n) c' ∧ c' ≠ c n) →
      ∃ m, n ≤ m ∧ c (m + 1) ≠ c m) :
    ∃ n, (c n).2 = [] ∧ readStats (c n).1.sent = k.statLog.map StatLine.row := by
  have hword := (Kernel.reachable_word32 hboot hk).log
  rw [← hlog] at hword ⊢
  have hpolls : Uart.Polls 0x3F8 (c 0) := by
    rw [hstart]
    exact SerialPort.polls_serialWrites _ _ _
  obtain ⟨n, hfinished⟩ := Uart.finishes c hpolls hstep hfair
  refine ⟨n, hfinished.done, ?_⟩
  rw [SerialPort.sent_of_finished hstart hstep hfinished, hu, List.nil_append]
  exact readStats_lines hplain hword

/-- The log after a run, behind a text of the source, a number and a pick of the policy. -/
theorem log_read_back_sample_run :
    ∃ k₀ k₁ k₂ k₃ k₄ k₅ out₁ out₃ out₄ out₅ p q child n,
      kmain sampleLayout (sampleBoot 2 (by decide) .fcfs) = some k₀ ∧
      Kernel.SampleRun k₀ k₁ k₂ k₃ k₄ k₅ out₁ out₃ out₄ out₅ p q child ∧
      readStats ((Uart.next true 0x3F8)^[n] (SerialPort.reset,
        SerialPort.serialWrites 0x3F8 ((sampleMessages ++
          k₅.statLog.map (Message.stat fun _ => 0)).map Message.log))).1.sent =
        k₅.statLog.map StatLine.row := by
  obtain ⟨k₀, k₁, k₂, k₃, k₄, k₅, out₁, out₃, out₄, out₅, p, q, child, hboot, hplenty, hrun⟩ :=
    Kernel.sampleRun_exists
  have hplain : ∀ m ∈ sampleMessages ++ k₅.statLog.map (Message.stat fun _ => 0), m.Plain := by
    intro m hm
    rcases List.mem_append.1 hm with hm | hm
    · exact (sampleMessages_sent m hm).plain
    · obtain ⟨line, -, rfl⟩ := List.mem_map.1 hm
      exact (Sent.stat _ line).plain
  have hlog : (sampleMessages ++ k₅.statLog.map (Message.stat fun _ => 0)).filterMap
      Message.statLine = k₅.statLog := by
    rw [List.filterMap_append, List.filterMap_map]
    exact List.filterMap_some
  obtain ⟨n, -, hread⟩ := log_read_back hboot (hrun.reachable hplenty) hplain hlog
    (show SerialPort.reset.stream = [] from rfl) (fun n => (Uart.next true 0x3F8)^[n] _) rfl
    (fun n => by
      rw [Function.iterate_succ_apply']
      exact Uart.next_step _)
    (Uart.next_fair (SerialPort.polls_serialWrites _ _ _))
  exact ⟨k₀, k₁, k₂, k₃, k₄, k₅, out₁, out₃, out₄, out₅, p, q, child, n, hboot, hrun, hread⟩

end Runs

end SoKernel
