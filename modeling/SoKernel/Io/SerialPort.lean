import SoKernel.Library.Uart
import SoKernel.Scheduler.StatText

/-!
# The serial port

This module models {lit}`io/serial_ports.c` as a driver of the serial chip: every call is the list
of its accesses to the ports, and a loop that waits is a poll.  The chip sends the bytes whenever
it likes.

{lit}`serial_write` waits for room before each character, but not before the newline, and it sets
up the chip anew on every call.  Both bytes of the divisor go to the same register.

Main results:

- Theorem {lit}`serial_write_delivers_iff`: when every byte of a line is sent, once and in order.
- Theorem {lit}`serial_writes_complete`: a sequence of calls returns, and sends its lines.
- Theorem {lit}`serial_write_hex_reads_back`: the digits of {lit}`serial_write_hex` are the number.
-/

namespace SoKernel

namespace SerialPort

open Uart

/-! ## The source functions -/

/-- {lit}`serial_configure_baud_rate`. -/
def serialConfigureBaudRate (com divisor : UInt16) : List PortAction :=
  [.out (com + 3) 0x80, .out com (divisor >>> 8).toUInt8, .out com divisor.toUInt8]

/-- {lit}`serial_configure_line`. -/
def serialConfigureLine (com : UInt16) : List PortAction :=
  [.out (com + 3) 0x03]

/-- {lit}`serial_configure_buffer`. -/
def serialConfigureBuffer (com : UInt16) : List PortAction :=
  [.out (com + 2) 0xC7]

/-- {lit}`serial_configure_modem`. -/
def serialConfigureModem (com : UInt16) : List PortAction :=
  [.out (com + 4) 0x03]

/-- The loop on {lit}`serial_is_transmit_fifo_empty`. -/
def waitTransmitFifoEmpty (com : UInt16) : PortAction :=
  .poll (com + 5) 0x20

/-- The loop of {lit}`serial_write`, up to the terminator. -/
def putString (com : UInt16) : List UInt8 → List PortAction
  | [] => []
  | c :: log => if c = 0 then [] else waitTransmitFifoEmpty com :: .out com c :: putString com log

/-- {lit}`serial_write`. -/
def serialWrite (com : UInt16) (log : List UInt8) : List PortAction :=
  waitTransmitFifoEmpty com :: serialConfigureBaudRate com 2 ++ serialConfigureLine com ++
    serialConfigureBuffer com ++ serialConfigureModem com ++ putString com log ++ [.out com 10]

/-- The characters of {lit}`hex`. -/
def hexDigit (d : Nat) : UInt8 :=
  if d < 10 then UInt8.ofNat (48 + d) else UInt8.ofNat (55 + d)

/-- The loop of {lit}`serial_write_hex`; {lit}`left` is {lit}`8 - i`. -/
def hexLoop : Nat → CharBuffer 9 → Nat → CharBuffer 9
  | 0, buffer, _ => buffer
  | left + 1, buffer, num => hexLoop left (buffer.write left (hexDigit (num % 16))) (num / 16)

/-- The array that {lit}`serial_write_hex` sends. -/
def hexBuffer (junk : Nat → UInt8) (num : Nat) : CharBuffer 9 :=
  (hexLoop 8 (.fresh junk) num).write 8 0

/-- {lit}`serial_write_hex`. -/
def serialWriteHex (junk : Nat → UInt8) (num : Nat) : List PortAction :=
  serialWrite 0x3F8 (hexBuffer junk num).string

/-! ## What holds between two accesses -/

variable {fifo : Bool} {com : UInt16} {u u' : Uart} {t log : List UInt8} {high : UInt8} {n : Nat}

/-- The stream, a bound for the bytes that wait, and a condition on the registers. -/
structure Holds (t : List UInt8) (n : Nat) (F : Uart → Prop) (u : Uart) : Prop where
  stream : u.stream = t
  waiting : u.waiting.length ≤ n
  registers : F u

/-- A condition on the registers that the driver alone changes. -/
def OnRegisters (F : Uart → Prop) : Prop :=
  ∀ u u', SameRegisters u u' → F u → F u'

/-- What is said of the registers and the stream outlasts what the chip does by itself. -/
theorem Holds.stable {F : Uart → Prop} (hF : OnRegisters F) :
    (device fifo com).Stable (Holds t n F) := by
  intro u u' hu hmove
  exact ⟨hmove.stream.trans hu.stream, hmove.waiting.trans hu.waiting,
    hF u u' hmove.registers hu.registers⟩

/-- The chip as {lit}`serial_write` leaves it. -/
structure Configured (fifo : Bool) (high : UInt8) (u : Uart) : Prop where
  fifoOn : u.fifoOn = fifo
  lineControl : u.lineControl = 3
  modemControl : u.modemControl = 3
  divisorLow : u.divisorLow = 2
  divisorHigh : u.divisorHigh = high

/-- The configuration is one of registers. -/
theorem Configured.onRegisters : OnRegisters (Configured fifo high) := by
  intro u u' hsame h
  exact ⟨hsame.fifoOn.trans h.fifoOn, hsame.lineControl.trans h.lineControl,
    hsame.modemControl.trans h.modemControl, hsame.divisorLow.trans h.divisorLow,
    hsame.divisorHigh.trans h.divisorHigh⟩

/-- The wait: no byte is left to wait. -/
theorem wait_triple {F : Uart → Prop} (hF : OnRegisters F) {p : List PortAction}
    {R : Uart → Prop} (h : (device fifo com).Triple (Holds t 0 F) p R) :
    (device fifo com).Triple (fun u => u.stream = t ∧ F u) (waitTransmitFifoEmpty com :: p) R := by
  refine Device.Triple.poll (fun u u' hu hmove => ?_) (fun u hu hready => ?_) h
  · exact ⟨hmove.stream.trans hu.1, hF u u' hmove.registers hu.2⟩
  · rw [read_status, lineStatus_ready] at hready
    exact ⟨hu.1, by rw [hready]; exact Nat.zero_le _, hu.2⟩

/-- A byte for the line, when there is room for it. -/
theorem put_holds (h : Holds t n (Configured fifo high) u) (c : UInt8)
    (hroom : n = 0 ∨ fifo = true ∧ n < 16) :
    Holds (t ++ [c]) (n + 1) (Configured fifo high) ((device fifo com).out com c u) := by
  have hdlab : u.dlab = false := by
    rw [dlab, h.registers.lineControl]
    decide
  have hwrite : (device fifo com).out com c u = u.transmit c := by
    rw [out_data, hdlab, if_neg Bool.false_ne_true]
  have hplace : u.transmit c = { u with waiting := u.waiting ++ [c] } := by
    have hwaiting := h.waiting
    unfold transmit
    rcases hroom with rfl | ⟨rfl, hn⟩
    · have hempty := List.length_eq_zero_iff.1 (Nat.le_zero.1 hwaiting)
      simp only [hempty, List.length_nil, Nat.zero_lt_succ, if_true, List.nil_append, ite_self]
    · rw [if_neg (by rw [h.registers.fifoOn]; decide), if_pos (by omega)]
  rw [hwrite, hplace]
  refine ⟨?_, ?_, h.registers.fifoOn, h.registers.lineControl, h.registers.modemControl,
    h.registers.divisorLow, h.registers.divisorHigh⟩
  · rw [← h.stream]
    simp only [stream, List.append_assoc]
  · have hwaiting := h.waiting
    simp only [List.length_append, List.length_singleton]
    omega

/-! ## The setup -/

/-- The latch is open, its high byte is as it was, and its low byte is the one given. -/
structure LatchOpen (high low : UInt8) (u : Uart) : Prop where
  lineControl : u.lineControl = 0x80
  divisorHigh : u.divisorHigh = high
  divisorLow : u.divisorLow = low

/-- The open latch is a condition on registers. -/
theorem LatchOpen.onRegisters {low : UInt8} : OnRegisters (LatchOpen high low) := by
  intro u u' hsame h
  exact ⟨hsame.lineControl.trans h.lineControl, hsame.divisorHigh.trans h.divisorHigh,
    hsame.divisorLow.trans h.divisorLow⟩

/-- Both bytes of the divisor go to the low byte of the latch: the second one stays there. -/
theorem baud_triple (fifo : Bool) (com divisor : UInt16) (t : List UInt8) (n : Nat)
    (high : UInt8) :
    (device fifo com).Triple (Holds t n fun u => u.divisorHigh = high)
      (serialConfigureBaudRate com divisor) (Holds t n (LatchOpen high divisor.toUInt8)) := by
  have hreg : OnRegisters fun u => u.divisorHigh = high :=
    fun u u' hsame h => hsame.divisorHigh.trans h
  have hopen : OnRegisters fun u => u.lineControl = 0x80 ∧ u.divisorHigh = high :=
    fun u u' hsame h => ⟨hsame.lineControl.trans h.1, hsame.divisorHigh.trans h.2⟩
  have hdlab : ∀ u : Uart, u.lineControl = 0x80 → u.dlab = true := by
    intro u hu
    rw [dlab, hu]
    decide
  have hlatch : ∀ u v, Holds t n (fun u => u.lineControl = 0x80 ∧ u.divisorHigh = high) u →
      (device fifo com).out com v u = { u with divisorLow := v } := by
    intro u v hu
    rw [out_data, if_pos (hdlab u hu.registers.1)]
  refine Device.Triple.out (Q := Holds t n fun u => u.lineControl = 0x80 ∧ u.divisorHigh = high)
    (Holds.stable hreg) (fun u hu => ?_) (Device.Triple.out
      (Q := Holds t n fun u => u.lineControl = 0x80 ∧ u.divisorHigh = high)
      (Holds.stable hopen) (fun u hu => ?_) (Device.Triple.out (Holds.stable hopen)
        (fun u hu => ?_) (Device.Triple.nil (Holds.stable LatchOpen.onRegisters))))
  · rw [out_line]
    exact ⟨hu.stream, hu.waiting, rfl, hu.registers⟩
  · rw [hlatch u _ hu]
    exact ⟨hu.stream, hu.waiting, hu.registers⟩
  · rw [hlatch u _ hu]
    exact ⟨hu.stream, hu.waiting, hu.registers.1, hu.registers.2, rfl⟩

/-- The line, the FIFO and the modem, once no byte waits. -/
theorem setup_triple (fifo : Bool) (com : UInt16) (t : List UInt8) (high : UInt8) :
    (device fifo com).Triple (Holds t 0 (LatchOpen high 2))
      (serialConfigureLine com ++ serialConfigureBuffer com ++ serialConfigureModem com)
      (Holds t 0 (Configured fifo high)) := by
  have hline : OnRegisters fun u =>
      u.lineControl = 3 ∧ u.divisorLow = 2 ∧ u.divisorHigh = high :=
    fun u u' hsame h => ⟨hsame.lineControl.trans h.1, hsame.divisorLow.trans h.2.1,
      hsame.divisorHigh.trans h.2.2⟩
  have hfifo : OnRegisters fun u =>
      u.fifoOn = fifo ∧ u.lineControl = 3 ∧ u.divisorLow = 2 ∧ u.divisorHigh = high :=
    fun u u' hsame h => ⟨hsame.fifoOn.trans h.1, hline u u' hsame h.2⟩
  refine Device.Triple.out
    (Q := Holds t 0 fun u => u.lineControl = 3 ∧ u.divisorLow = 2 ∧ u.divisorHigh = high)
    (Holds.stable LatchOpen.onRegisters) (fun u hu => ?_) (Device.Triple.out
      (Q := Holds t 0 fun u =>
        u.fifoOn = fifo ∧ u.lineControl = 3 ∧ u.divisorLow = 2 ∧ u.divisorHigh = high)
      (Holds.stable hline) (fun u hu => ?_) (Device.Triple.out (Holds.stable hfifo)
        (fun u hu => ?_) (Device.Triple.nil (Holds.stable Configured.onRegisters))))
  · rw [out_line]
    exact ⟨hu.stream, hu.waiting, rfl, hu.registers.divisorLow, hu.registers.divisorHigh⟩
  · -- The FIFO is emptied, but nothing was in it.
    have hempty := List.length_eq_zero_iff.1 (Nat.le_zero.1 hu.waiting)
    have hon : (u.fifoControl fifo 0xC7).fifoOn = fifo := by
      simp only [fifoControl, show (0xC7 &&& 1 != (0 : UInt8)) = true by decide, Bool.and_true]
    have hwaiting : (u.fifoControl fifo 0xC7).waiting = u.waiting := by
      simp only [fifoControl, hempty, ite_self]
    rw [out_fifo]
    refine ⟨?_, ?_, hon, hu.registers⟩
    · rw [← hu.stream, stream, stream, hwaiting]
      rfl
    · rw [hwaiting]
      exact hu.waiting
  · rw [out_modem]
    exact ⟨hu.stream, hu.waiting, hu.registers.1, hu.registers.2.1, rfl, hu.registers.2.2.1,
      hu.registers.2.2.2⟩

/-! ## The text -/

/-- The string without its terminator. -/
def text (log : List UInt8) : List UInt8 :=
  log.takeWhile (· != 0)

/-- A string without a terminator in it is sent as it is. -/
theorem text_eq (h : 0 ∉ log) : text log = log := by
  rw [text, List.takeWhile_eq_self_iff]
  intro c hc
  rw [bne_iff_ne]
  rintro rfl
  exact h hc

/-- The loop of {lit}`serial_write` stops at the terminator. -/
theorem putString_eq (com : UInt16) (log : List UInt8) :
    putString com log = (text log).flatMap fun c => [waitTransmitFifoEmpty com, .out com c] := by
  induction log with
  | nil => rfl
  | cons c log ih =>
      unfold putString text
      by_cases hc : c = 0
      · simp [hc]
      · simp [hc, ih, text]

/-- The loop sends its characters, and the last one may still wait at the end. -/
theorem putString_triple (fifo : Bool) (com : UInt16) (high : UInt8) (t s : List UInt8) :
    (device fifo com).Triple (Holds t 1 (Configured fifo high))
      (s.flatMap fun c => [waitTransmitFifoEmpty com, .out com c])
      (Holds (t ++ s) 1 (Configured fifo high)) := by
  induction s generalizing t with
  | nil =>
      rw [List.append_nil]
      exact Device.Triple.nil (Holds.stable Configured.onRegisters)
  | cons c s ih =>
      have hrest := ih (t ++ [c])
      rw [List.append_assoc, List.singleton_append] at hrest
      intro u u' hu hrun
      refine wait_triple Configured.onRegisters
        (Device.Triple.out (Holds.stable Configured.onRegisters)
          (fun u hu => put_holds hu c (.inl rfl)) hrest) u u' ⟨hu.stream, hu.registers⟩ hrun

/-- The chip is set up once it has no byte to send. -/
theorem configure_triple (fifo : Bool) (com : UInt16) (high : UInt8) (t : List UInt8) :
    (device fifo com).Triple (fun u => u.stream = t ∧ u.divisorHigh = high)
      (waitTransmitFifoEmpty com :: (serialConfigureBaudRate com 2 ++
        (serialConfigureLine com ++ serialConfigureBuffer com ++ serialConfigureModem com)))
      (Holds t 0 (Configured fifo high)) :=
  wait_triple (fun _ _ hsame h => hsame.divisorHigh.trans h)
    ((baud_triple fifo com 2 t 0 high).seq (setup_triple fifo com t high))

/-- {lit}`serial_write` configures the chip, puts the text and ends the line. -/
theorem serialWrite_eq (com : UInt16) (log : List UInt8) :
    serialWrite com log =
      (waitTransmitFifoEmpty com :: (serialConfigureBaudRate com 2 ++
        (serialConfigureLine com ++ serialConfigureBuffer com ++ serialConfigureModem com))) ++
      (putString com log ++ [.out com 10]) := by
  simp only [serialWrite, List.append_assoc, List.cons_append]

/-- The newline is written without a wait: one byte may be before it. -/
theorem newline_triple (com : UInt16) (high : UInt8) (t : List UInt8)
    (hroom : n = 0 ∨ fifo = true ∧ n < 16) :
    (device fifo com).Triple (Holds t n (Configured fifo high)) [.out com 10]
      (Holds (t ++ [10]) (n + 1) (Configured fifo high)) :=
  Device.Triple.out (Holds.stable Configured.onRegisters) (fun _ hu => put_holds hu 10 hroom)
    (Device.Triple.nil (Holds.stable Configured.onRegisters))

/-- Room for more bytes is room for fewer. -/
theorem Holds.weaken {F : Uart → Prop} {m : Nat} (h : Holds t m F u) (hm : m ≤ n) :
    Holds t n F u :=
  ⟨h.stream, h.waiting.trans hm, h.registers⟩

/-- A call sends its line, after what was on its way. -/
theorem serialWrite_triple (com : UInt16) (high : UInt8) (t log : List UInt8)
    (hchip : fifo = true ∨ text log = []) :
    (device fifo com).Triple (fun u => u.stream = t ∧ u.divisorHigh = high)
      (serialWrite com log) (Holds (t ++ text log ++ [10]) 2 (Configured fifo high)) := by
  rw [serialWrite_eq, putString_eq]
  refine (configure_triple fifo com high t).seq ?_
  rcases hchip with rfl | hempty
  · have hstring : (device true com).Triple (Holds t 0 (Configured true high))
        ((text log).flatMap fun c => [waitTransmitFifoEmpty com, .out com c])
        (Holds (t ++ text log) 1 (Configured true high)) := fun u u' hu hrun =>
      putString_triple true com high t (text log) u u' (hu.weaken (Nat.zero_le _)) hrun
    exact hstring.seq (newline_triple com high _ (.inr ⟨rfl, by norm_num⟩))
  · rw [hempty, List.append_nil]
    intro u u' hu hrun
    exact (newline_triple com high t (.inl rfl) u u' hu hrun).weaken (by norm_num)

/-- Every poll waits for room. -/
theorem polls_serialWrite (com : UInt16) (u : Uart) (log : List UInt8) :
    Polls com (u, serialWrite com log) := by
  intro port mask hmem
  rw [serialWrite_eq, putString_eq] at hmem
  simp only [serialConfigureBaudRate, serialConfigureLine, serialConfigureBuffer,
    serialConfigureModem, waitTransmitFifoEmpty, List.mem_append, List.mem_cons,
    List.mem_flatMap, PortAction.poll.injEq, reduceCtorEq, List.not_mem_nil, or_false] at hmem
  rcases hmem with hpoll | ⟨_, _, hpoll⟩
  · exact hpoll
  · exact hpoll

/-- Without a FIFO the newline may take the place of the last character. -/
theorem exists_lost (com : UInt16) (u : Uart) (log : List UInt8) (htext : text log ≠ []) :
    ∃ u', (device false com).Run (u, serialWrite com log) (u', []) ∧
      u'.stream = u.stream ++ (text log).dropLast ++ [10] := by
  obtain ⟨s, c, hsplit⟩ : ∃ s c, text log = s ++ [c] :=
    ⟨_, _, (List.dropLast_append_getLast htext).symm⟩
  have hdriver : serialWrite com log =
      ((waitTransmitFifoEmpty com :: (serialConfigureBaudRate com 2 ++
        (serialConfigureLine com ++ serialConfigureBuffer com ++ serialConfigureModem com))) ++
        s.flatMap fun c => [waitTransmitFifoEmpty com, .out com c]) ++
      [waitTransmitFifoEmpty com, .out com c, .out com 10] := by
    rw [serialWrite_eq, putString_eq, hsplit]
    simp only [List.flatMap_append, List.flatMap_cons, List.flatMap_nil, List.append_assoc,
      List.cons_append, List.nil_append]
  have hpolls := polls_serialWrite com u log
  rw [hdriver] at hpolls ⊢
  -- The driver up to the last character, and then all the bytes are sent.
  obtain ⟨u₁, hrun⟩ := @exists_run false com _ u
    fun port mask hmem => hpolls port mask (List.mem_append_left _ hmem)
  have hstring : (device false com).Triple (Holds u.stream 0 (Configured false u.divisorHigh))
      (s.flatMap fun c => [waitTransmitFifoEmpty com, .out com c])
      (Holds (u.stream ++ s) 1 (Configured false u.divisorHigh)) := fun u' u'' hu =>
    putString_triple false com u.divisorHigh u.stream s u' u'' (hu.weaken (Nat.zero_le _))
  have hfirst := (configure_triple false com u.divisorHigh u.stream).seq hstring u u₁
    ⟨rfl, rfl⟩ hrun
  obtain ⟨u₂, hmoves, hwaiting, -⟩ := exists_drained u₁
  obtain ⟨hstream, hsame⟩ := stream_of_moves hmoves
  have hconfigured := Configured.onRegisters u₁ u₂ hsame hfirst.registers
  have hready := (lineStatus_ready u₂).2 hwaiting
  rw [← read_status false com u₂] at hready
  have hout : ∀ (u : Uart) (v : UInt8), u.fifoOn = false → u.lineControl = 3 →
      (device false com).out com v u = { u with waiting := [v] } := by
    intro u v hoff hline
    have hdlab : u.dlab = false := by
      rw [dlab, hline]
      decide
    rw [out_data, hdlab, if_neg Bool.false_ne_true, transmit, if_pos hoff]
  refine ⟨{ u₂ with waiting := [10] }, ?_, ?_⟩
  · have hdrain : (device false com).Run (u₁, [waitTransmitFifoEmpty com, .out com c, .out com 10])
        (u₂, [waitTransmitFifoEmpty com, .out com c, .out com 10]) :=
      hmoves.lift (fun u => (u, [waitTransmitFifoEmpty com, .out com c, .out com 10]))
        fun _ _ hmove => .move _ hmove
    have hlast := ((hdrain.tail (.ready _ hready)).tail (.out _ _ _ _)).tail (.out _ _ _ _)
    rw [hout u₂ c hconfigured.fifoOn hconfigured.lineControl,
      hout { u₂ with waiting := [c] } 10 hconfigured.fifoOn hconfigured.lineControl] at hlast
    exact hrun.seq hlast
  · have hbefore : u₂.stream = u.stream ++ s := hstream.trans hfirst.stream
    have hlast : (text log).dropLast = s := by
      rw [hsplit, List.dropLast_concat]
    rw [hlast, ← hbefore]
    simp only [stream, hwaiting, List.append_nil, List.append_assoc]

/-- A line that is not empty ends otherwise without its last character. -/
theorem dropLast_ne (t : List UInt8) {s : List UInt8} (hs : s ≠ []) :
    t ++ s.dropLast ++ [10] ≠ t ++ s ++ [10] := by
  intro hsame
  have hlength := congrArg List.length hsame
  have hpos := List.length_pos_iff.2 hs
  simp only [List.length_append, List.length_dropLast] at hlength
  omega

/-- A call sends every byte of its line, once and in order, in every interleaving with the chip,
if and only if the chip has a FIFO or the line is empty.  The newline takes the place of the last
character in some interleaving, if and only if the chip has no FIFO or there is no character. -/
theorem serial_write_delivers_iff (fifo : Bool) (com : UInt16) (u : Uart) (log : List UInt8) :
    ((∀ u', (device fifo com).Run (u, serialWrite com log) (u', []) →
        u'.stream = u.stream ++ text log ++ [10]) ↔ fifo = true ∨ text log = []) ∧
      ((∃ u', (device fifo com).Run (u, serialWrite com log) (u', []) ∧
        u'.stream = u.stream ++ (text log).dropLast ++ [10]) ↔ fifo = false ∨ text log = []) := by
  have hdelivers : fifo = true ∨ text log = [] →
      ∀ u', (device fifo com).Run (u, serialWrite com log) (u', []) →
        u'.stream = u.stream ++ text log ++ [10] := fun hchip u' hrun =>
    (serialWrite_triple com u.divisorHigh u.stream log hchip u u' ⟨rfl, rfl⟩ hrun).stream
  refine ⟨⟨fun hall => ?_, hdelivers⟩, fun hlost => ?_, fun hchip => ?_⟩
  · by_contra hchip
    rw [not_or, Bool.not_eq_true] at hchip
    obtain ⟨rfl, htext⟩ := hchip
    obtain ⟨u', hrun, hlost⟩ := exists_lost com u log htext
    exact dropLast_ne u.stream htext (hlost.symm.trans (hall u' hrun))
  · by_contra hchip
    rw [not_or, Bool.not_eq_false] at hchip
    obtain ⟨rfl, htext⟩ := hchip
    obtain ⟨u', hrun, hstream⟩ := hlost
    exact dropLast_ne u.stream htext (hstream.symm.trans (hdelivers (.inl rfl) u' hrun))
  · by_cases htext : text log = []
    · obtain ⟨u', hrun⟩ := @exists_run fifo com _ u (polls_serialWrite com u log)
      refine ⟨u', hrun, (hdelivers (.inr htext) u' hrun).trans ?_⟩
      rw [htext, List.dropLast_nil]
    · obtain rfl := hchip.resolve_right htext
      exact exists_lost com u log htext

/-! ## A sequence of calls -/

/-- Calls one after the other. -/
def serialWrites (com : UInt16) (logs : List (List UInt8)) : List PortAction :=
  logs.flatMap (serialWrite com)

/-- The lines of a sequence of calls. -/
def lines (logs : List (List UInt8)) : List UInt8 :=
  logs.flatMap fun log => text log ++ [10]

/-- One line after the other is added to the stream. -/
theorem serialWrites_triple (com : UInt16) (high : UInt8) (t : List UInt8)
    (logs : List (List UInt8)) :
    (device true com).Triple (fun u => u.stream = t ∧ u.divisorHigh = high)
      (serialWrites com logs) (fun u => u.stream = t ++ lines logs ∧ u.divisorHigh = high) := by
  induction logs generalizing t with
  | nil =>
      rw [lines, List.flatMap_nil, List.append_nil]
      exact Device.Triple.nil fun u u' hu hmove =>
        ⟨hmove.stream.trans hu.1, hmove.registers.divisorHigh.trans hu.2⟩
  | cons log logs ih =>
      have hfirst := serialWrite_triple com high t log (.inl rfl)
      have hrest := ih (t ++ text log ++ [10])
      have hlines : t ++ lines (log :: logs) = t ++ text log ++ [10] ++ lines logs := by
        simp only [lines, List.flatMap_cons, List.append_assoc]
      rw [hlines]
      exact hfirst.seq fun u u' hu hrun =>
        hrest u u' ⟨hu.stream, hu.registers.divisorHigh⟩ hrun

/-- The driver waits for nothing but the FIFO. -/
theorem polls_serialWrites (com : UInt16) (u : Uart) (logs : List (List UInt8)) :
    Polls com (u, serialWrites com logs) := by
  intro port mask hmem
  obtain ⟨log, -, hlog⟩ := List.mem_flatMap.1 hmem
  exact polls_serialWrite com u log port mask hlog

/-- What has been sent when everything is done. -/
theorem sent_of_finished {u : Uart} {logs : List (List UInt8)} {c : Nat → Uart × List PortAction}
    (hstart : c 0 = (u, serialWrites com logs))
    (hstep : ∀ n, c (n + 1) = c n ∨ (device true com).Step (c n) (c (n + 1))) {n : Nat}
    (hfinished : Finished (c n)) : (c n).1.sent = u.stream ++ lines logs := by
  have hrun : ∀ n, (device true com).Run (c 0) (c n) := by
    intro n
    induction n with
    | zero => exact .refl
    | succ n ih =>
        rcases hstep n with hsame | hnext
        · rw [hsame]
          exact ih
        · exact ih.tail hnext
  have hend := hrun n
  rw [hstart, show c n = ((c n).1, []) from Prod.ext rfl hfinished.done] at hend
  have hstream := serialWrites_triple com u.divisorHigh u.stream logs u (c n).1 ⟨rfl, rfl⟩ hend
  exact hfinished.sent.trans hstream.1

/-- A sequence of calls returns, and the bytes that the chip then has sent are those of its lines
in order, after those that were on their way: along every schedule in which something changes
whenever something can. -/
theorem serial_writes_complete (com : UInt16) (u : Uart) (logs : List (List UInt8))
    (c : Nat → Uart × List PortAction) (hstart : c 0 = (u, serialWrites com logs))
    (hstep : ∀ n, c (n + 1) = c n ∨ (device true com).Step (c n) (c (n + 1)))
    (hfair : ∀ n, (∃ c', (device true com).Step (c n) c' ∧ c' ≠ c n) →
      ∃ m, n ≤ m ∧ c (m + 1) ≠ c m) :
    ∃ n, (c n).2 = [] ∧ (c n).1.sent = u.stream ++ lines logs := by
  have hpolls : Polls com (c 0) := by
    rw [hstart]
    exact polls_serialWrites com u logs
  obtain ⟨n, hfinished⟩ := finishes c hpolls hstep hfair
  exact ⟨n, hfinished.done, sent_of_finished hstart hstep hfinished⟩

/-- The chip at power-on. -/
def reset : Uart :=
  ⟨false, [], none, [], 0, 0, 12, 0⟩

/-- Two lines, with the chip as slow as can be. -/
theorem serial_writes_complete_eager :
    ∃ n, ((next true 0x3F8)^[n] (reset, serialWrites 0x3F8 [[72, 105, 0], [0]])).2 = [] ∧
      ((next true 0x3F8)^[n] (reset, serialWrites 0x3F8 [[72, 105, 0], [0]])).1.sent =
        reset.stream ++ lines [[72, 105, 0], [0]] :=
  serial_writes_complete 0x3F8 reset [[72, 105, 0], [0]]
    (fun n => (next true 0x3F8)^[n] (reset, serialWrites 0x3F8 [[72, 105, 0], [0]])) rfl
    (fun n => by
      rw [Function.iterate_succ_apply']
      exact next_step _)
    (next_fair (polls_serialWrites _ _ _))

/-! ## Numbers -/

/-- The last {lit}`k` hexadecimal digits. -/
def hexText : Nat → Nat → List UInt8
  | 0, _ => []
  | k + 1, num => hexText k (num / 16) ++ [hexDigit (num % 16)]

/-- The value of a character of {lit}`hex`. -/
def hexDigitValue (c : UInt8) : Option Nat :=
  if 48 ≤ c ∧ c ≤ 57 then some (c.toNat - 48)
  else if 65 ≤ c ∧ c ≤ 70 then some (c.toNat - 55)
  else none

/-- The value of a hexadecimal numeral. -/
def hexValue (text : List UInt8) : Option Nat :=
  text.foldlM (fun value c => (hexDigitValue c).map (16 * value + ·)) 0

/-- A hexadecimal digit has its value. -/
theorem hexDigit_spec {d : Nat} (h : d < 16) :
    hexDigit d ≠ 0 ∧ hexDigitValue (hexDigit d) = some d := by
  revert d
  decide

/-- A numeral has as many digits as asked for. -/
@[simp] theorem hexText_length (k num : Nat) : (hexText k num).length = k := by
  induction k generalizing num with
  | zero => rfl
  | succ k ih => rw [hexText, List.length_append, ih, List.length_singleton]

/-- A numeral has digits only. -/
theorem mem_hexText {k num : Nat} {c : UInt8} (h : c ∈ hexText k num) :
    ∃ d < 16, c = hexDigit d := by
  induction k generalizing num with
  | zero => cases h
  | succ k ih =>
      rcases List.mem_append.1 h with h | h
      · exact ih h
      · exact ⟨_, Nat.mod_lt _ (by norm_num), List.mem_singleton.1 h⟩

/-- The characters of a numeral are no others. -/
theorem hexText_notMem {c : UInt8} (hc : ∀ d < 16, hexDigit d ≠ c) (k num : Nat) :
    c ∉ hexText k num := by
  intro h
  obtain ⟨d, hd, hdigit⟩ := mem_hexText h
  exact hc d hd hdigit.symm

/-- No digit is the terminator. -/
theorem hexText_ne_zero (k num : Nat) : (0 : UInt8) ∉ hexText k num :=
  hexText_notMem (fun _ hd => (hexDigit_spec hd).1) k num

/-- The numeral stands for the number. -/
theorem hexValue_hexText (k num : Nat) : hexValue (hexText k num) = some (num % 16 ^ k) := by
  induction k generalizing num with
  | zero => rw [pow_zero, Nat.mod_one]; rfl
  | succ k ih =>
      have hdigit := (hexDigit_spec (Nat.mod_lt num (show 0 < 16 by norm_num))).2
      have hvalue := ih (num / 16)
      unfold hexValue at hvalue ⊢
      rw [hexText, List.foldlM_append, hvalue]
      simp only [List.foldlM_cons, List.foldlM_nil, hdigit, Option.map_some, Option.bind_eq_bind,
        Option.bind_some, Option.pure_def, Option.some.injEq]
      rw [pow_succ', Nat.mod_mul]
      omega

/-- The loop leaves the bytes behind the digits. -/
theorem hexLoop_bytes_of_le {k j : Nat} (buffer : CharBuffer 9) (num : Nat) (hj : k ≤ j) :
    (hexLoop k buffer num).bytes j = buffer.bytes j := by
  induction k generalizing buffer num with
  | zero => rfl
  | succ k ih =>
      rw [hexLoop, ih _ _ (by omega), CharBuffer.write_bytes, Function.update_of_ne (by omega)]

/-- The loop writes the numeral, from its end. -/
theorem hexLoop_bytes {k j : Nat} (buffer : CharBuffer 9) (num : Nat)
    (hj : j < (hexText k num).length) :
    (hexLoop k buffer num).bytes j = (hexText k num)[j] := by
  induction k generalizing buffer num with
  | zero => cases hj
  | succ k ih =>
      simp only [hexText, hexLoop]
      by_cases hlast : j < (hexText k (num / 16)).length
      · rw [List.getElem_append_left hlast, ih _ _ hlast]
      · rw [hexText_length] at hj hlast
        obtain rfl : j = k := by omega
        rw [List.getElem_append_right (by simp), hexLoop_bytes_of_le _ _ le_rfl,
          CharBuffer.write_bytes, Function.update_self]
        simp

/-- The loop stays in its array. -/
theorem hexLoop_overrun {k : Nat} (buffer : CharBuffer 9) (num : Nat) (hk : k ≤ 9) :
    (hexLoop k buffer num).overrun = buffer.overrun := by
  induction k generalizing buffer num with
  | zero => rfl
  | succ k ih =>
      rw [hexLoop, ih _ _ (by omega), CharBuffer.write_overrun, decide_eq_false (by omega),
        Bool.or_false]

/-- The array of {lit}`serial_write_hex` has eight digits. -/
theorem hexBuffer_string (junk : Nat → UInt8) (num : Nat) :
    (hexBuffer junk num).string = hexText 8 num := by
  have hlength := hexText_length 8 num
  refine CharBuffer.stringFrom_eq (fun j hj => ?_) ?_ (hexText_ne_zero 8 num) (by omega)
  · rw [hexBuffer, CharBuffer.write_bytes, Function.update_of_ne (by omega), Nat.zero_add,
      hexLoop_bytes _ _ hj]
  · rw [hexBuffer, hlength, CharBuffer.write_bytes, Function.update_self]

/-- The array has room for the eight characters and the terminator, and they stand for the
number. -/
theorem hexBuffer_spec (junk : Nat → UInt8) {num : Nat} (hnum : num < 2 ^ 32) :
    (hexBuffer junk num).overrun = false ∧ (hexBuffer junk num).string.length = 8 ∧
      hexValue (text (hexBuffer junk num).string) = some num := by
  rw [hexBuffer_string, text_eq (hexText_ne_zero 8 num), hexText_length, hexValue_hexText, Nat.mod_eq_of_lt (by omega)]
  refine ⟨?_, rfl, rfl⟩
  rw [hexBuffer, CharBuffer.write_overrun, hexLoop_overrun _ _ (by norm_num)]
  rfl

/-- In every interleaving with the chip, {lit}`serial_write_hex` sends one line of eight
characters that stand for its number. -/
theorem serial_write_hex_reads_back (junk : Nat → UInt8) {num : Nat} (hnum : num < 2 ^ 32)
    {u u' : Uart} (hrun : (device true 0x3F8).Run (u, serialWriteHex junk num) (u', [])) :
    (hexBuffer junk num).overrun = false ∧ ∃ digits, u'.stream = u.stream ++ digits ++ [10] ∧
      digits.length = 8 ∧ 10 ∉ digits ∧ hexValue digits = some num := by
  obtain ⟨hfits, hlength, hvalue⟩ := hexBuffer_spec junk hnum
  have hstream := (serialWrite_triple 0x3F8 u.divisorHigh u.stream (hexBuffer junk num).string
    (.inl rfl) u u' ⟨rfl, rfl⟩ hrun).stream
  have htext : text (hexBuffer junk num).string = (hexBuffer junk num).string := by
    rw [hexBuffer_string, text_eq (hexText_ne_zero 8 num)]
  rw [htext] at hstream hvalue
  refine ⟨hfits, _, hstream, hlength, ?_, hvalue⟩
  rw [hexBuffer_string]
  exact hexText_notMem (by decide) 8 num

/-- The number of the keyboard interrupt, on a chip that has been reset. -/
theorem serial_write_hex_reads_back_keyboard :
    ∃ u', (device true 0x3F8).Run (reset, serialWriteHex (fun _ => 0) 33) (u', []) ∧
      (hexBuffer (fun _ => 0) 33).overrun = false ∧
      ∃ digits, u'.stream = reset.stream ++ digits ++ [10] ∧ digits.length = 8 ∧ 10 ∉ digits ∧
        hexValue digits = some 33 := by
  obtain ⟨u', hrun⟩ := @exists_run true 0x3F8 _ reset
    (polls_serialWrite 0x3F8 reset (hexBuffer (fun _ => 0) 33).string)
  exact ⟨u', hrun, serial_write_hex_reads_back (fun _ => 0) (by norm_num) hrun⟩

end SerialPort

end SoKernel
