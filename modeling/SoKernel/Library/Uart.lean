import SoKernel.Library.PortIo

/-!
# The transmitter of a 16550

The transmitter of the serial chip 16550, and of the older chips that have no FIFO.  A byte that
is written waits in the FIFO, or in the one holding register, then passes through the shift
register and is sent.  The chip moves a byte on whenever it likes.

The receiver is left out.

Main results:

- Theorem {lit}`Uart.stream_of_moves`: the moves of the chip neither lose nor reorder a byte.
- Theorem {lit}`Uart.finishes`: a driver that waits for room comes to its end.
-/

namespace SoKernel

/-- The registers of the transmitter, the bytes on their way, and the bytes that were sent. -/
structure Uart where
  fifoOn : Bool
  waiting : List UInt8
  shifter : Option UInt8
  sent : List UInt8
  lineControl : UInt8
  modemControl : UInt8
  divisorLow : UInt8
  divisorHigh : UInt8

namespace Uart

/-- {lit}`DLAB`: the first two registers are the divisor latch. -/
def dlab (u : Uart) : Bool :=
  u.lineControl &&& 0x80 != 0

/-- A byte to be sent.  A FIFO that is full drops it; without a FIFO it takes the place of the
byte that waits. -/
def transmit (u : Uart) (v : UInt8) : Uart :=
  if u.fifoOn = false then { u with waiting := [v] }
  else if u.waiting.length < 16 then { u with waiting := u.waiting ++ [v] }
  else u

/-- The FIFO control register.  It is emptied on demand and when it is switched. -/
def fifoControl (fifo : Bool) (u : Uart) (v : UInt8) : Uart :=
  let on := fifo && (v &&& 1 != 0)
  { u with
    fifoOn := on
    waiting := if on != u.fifoOn || (on && (v &&& 4 != 0)) then [] else u.waiting }

/-- A byte written to a register. -/
def write (fifo : Bool) (reg : UInt16) (v : UInt8) (u : Uart) : Uart :=
  if reg = 0 then if u.dlab then { u with divisorLow := v } else u.transmit v
  else if reg = 1 then if u.dlab then { u with divisorHigh := v } else u
  else if reg = 2 then u.fifoControl fifo v
  else if reg = 3 then { u with lineControl := v }
  else if reg = 4 then { u with modemControl := v }
  else u

/-- The bits of the line status register for the transmitter: {lit}`0x20` when no byte waits, and
{lit}`0x40` when none is on its way. -/
def lineStatus (u : Uart) : UInt8 :=
  if u.waiting = [] then if u.shifter = none then 0x60 else 0x20 else 0

/-- The moves of the chip. -/
inductive Move : Uart → Uart → Prop
  | load {u : Uart} {b : UInt8} {rest : List UInt8} (hwaiting : u.waiting = b :: rest)
      (hshifter : u.shifter = none) : Move u { u with waiting := rest, shifter := some b }
  | send {u : Uart} {b : UInt8} (hshifter : u.shifter = some b) :
      Move u { u with shifter := none, sent := u.sent ++ [b] }

/-- The chip at a base port, with or without a FIFO.  Of its registers only the line status is
read. -/
def device (fifo : Bool) (com : UInt16) : Device Uart where
  out port v u := u.write fifo (port - com) v
  read port u := if port - com = 5 then u.lineStatus else 0
  move := Move

/-- The bytes that were sent and those that are on their way, in order. -/
def stream (u : Uart) : List UInt8 :=
  u.sent ++ (u.shifter.toList ++ u.waiting)

/-- A register seen from the base port. -/
theorem port_sub (com reg : UInt16) : com + reg - com = reg := by
  rw [add_sub_cancel_left]

section Registers

variable (fifo : Bool) (com : UInt16) (v : UInt8) (u : Uart)

/-- A write to the line control register. -/
@[simp] theorem out_line : (device fifo com).out (com + 3) v u = { u with lineControl := v } := by
  simp only [device, port_sub, write]
  rfl

/-- A write to the modem control register. -/
@[simp] theorem out_modem :
    (device fifo com).out (com + 4) v u = { u with modemControl := v } := by
  simp only [device, port_sub, write]
  rfl

/-- A write to the FIFO control register. -/
@[simp] theorem out_fifo : (device fifo com).out (com + 2) v u = u.fifoControl fifo v := by
  simp only [device, port_sub, write]
  rfl

/-- A write to the data port sets the divisor or is sent, as the latch bit says. -/
theorem out_data : (device fifo com).out com v u =
    if u.dlab then { u with divisorLow := v } else u.transmit v := by
  simp only [device, sub_self, write, if_true]

/-- A read of the line status register. -/
theorem read_status : (device fifo com).read (com + 5) u = u.lineStatus := by
  simp only [device, port_sub, if_true]

end Registers

/-! ## What the moves keep -/

variable {fifo : Bool} {com : UInt16} {u u' : Uart}

/-- The registers that only the driver writes. -/
structure SameRegisters (u u' : Uart) : Prop where
  fifoOn : u'.fifoOn = u.fifoOn
  lineControl : u'.lineControl = u.lineControl
  modemControl : u'.modemControl = u.modemControl
  divisorLow : u'.divisorLow = u.divisorLow
  divisorHigh : u'.divisorHigh = u.divisorHigh

/-- The chip by itself changes no register. -/
theorem Move.registers (h : Move u u') : SameRegisters u u' := by
  cases h with
  | load hwaiting hshifter => exact ⟨rfl, rfl, rfl, rfl, rfl⟩
  | send hshifter => exact ⟨rfl, rfl, rfl, rfl, rfl⟩

/-- No byte is lost on its way. -/
theorem Move.stream (h : Move u u') : u'.stream = u.stream := by
  cases h with
  | load hwaiting hshifter =>
      simp only [Uart.stream, hwaiting, hshifter, Option.toList_some, Option.toList_none,
        List.nil_append, List.singleton_append]
  | send hshifter =>
      simp only [Uart.stream, hshifter, Option.toList_some, Option.toList_none, List.nil_append,
        List.append_assoc]

/-- The bytes that wait do not get more. -/
theorem Move.waiting (h : Move u u') : u'.waiting.length ≤ u.waiting.length := by
  cases h with
  | load hwaiting hshifter => simp only [hwaiting, List.length_cons, Nat.le_succ]
  | send hshifter => exact le_rfl

/-- The status has the bit that the driver waits for when no byte is waiting. -/
theorem lineStatus_ready (u : Uart) : u.lineStatus &&& 0x20 ≠ 0 ↔ u.waiting = [] := by
  unfold lineStatus
  by_cases hwaiting : u.waiting = []
  · rw [if_pos hwaiting]
    refine ⟨fun _ => hwaiting, fun _ => ?_⟩
    split
    · decide
    · decide
  · rw [if_neg hwaiting]
    exact ⟨fun h => absurd rfl h, fun h => absurd h hwaiting⟩

/-- Registers that are kept twice are kept. -/
theorem SameRegisters.trans {u₁ u₂ u₃ : Uart} (h : SameRegisters u₁ u₂)
    (h' : SameRegisters u₂ u₃) : SameRegisters u₁ u₃ :=
  ⟨h'.fifoOn.trans h.fifoOn, h'.lineControl.trans h.lineControl,
    h'.modemControl.trans h.modemControl, h'.divisorLow.trans h.divisorLow,
    h'.divisorHigh.trans h.divisorHigh⟩

/-- Left to itself the chip sends what it has. -/
theorem exists_drained (u : Uart) :
    ∃ u', Relation.ReflTransGen Move u u' ∧ u'.waiting = [] ∧ u'.shifter = none := by
  have hshift : ∀ u : Uart, ∃ u', Relation.ReflTransGen Move u u' ∧ u'.waiting = u.waiting ∧
      u'.shifter = none := by
    intro u
    cases hshifter : u.shifter with
    | none => exact ⟨u, .refl, rfl, hshifter⟩
    | some b => exact ⟨_, .single (.send hshifter), rfl, rfl⟩
  generalize hw : u.waiting = w
  induction w generalizing u with
  | nil =>
      obtain ⟨u₁, hmoves, hwaiting, hshifter⟩ := hshift u
      exact ⟨u₁, hmoves, hwaiting.trans hw, hshifter⟩
  | cons b rest ih =>
      obtain ⟨u₁, hmoves, hwaiting, hshifter⟩ := hshift u
      obtain ⟨u₂, hmoves₂, hdone⟩ :=
        ih { u₁ with waiting := rest, shifter := some b } rfl
      exact ⟨u₂, (hmoves.tail (.load (hwaiting.trans hw) hshifter)).trans hmoves₂, hdone⟩

/-- Any number of moves keeps the stream and the registers. -/
theorem stream_of_moves (h : Relation.ReflTransGen Move u u') :
    u'.stream = u.stream ∧ SameRegisters u u' := by
  induction h with
  | refl => exact ⟨rfl, rfl, rfl, rfl, rfl, rfl⟩
  | tail _ hmove ih => exact ⟨hmove.stream.trans ih.1, ih.2.trans hmove.registers⟩

/-! ## The end of a driver -/

/-- What an access may cost: a byte that waits has two moves before it. -/
def cost : PortAction → Nat
  | .out _ _ => 3
  | .poll _ _ => 1

/-- The moves and accesses that are left. -/
def measure (c : Uart × List PortAction) : Nat :=
  2 * c.1.waiting.length + c.1.shifter.toList.length + (c.2.map cost).sum

/-- One more byte waits at most. -/
theorem waiting_write (fifo : Bool) (reg : UInt16) (v : UInt8) (u : Uart) :
    (u.write fifo reg v).waiting.length ≤ u.waiting.length + 1 ∧
      (u.write fifo reg v).shifter = u.shifter := by
  unfold write
  split
  · split
    · exact ⟨Nat.le_succ _, rfl⟩
    · unfold transmit
      split
      · exact ⟨Nat.le_add_left _ _, rfl⟩
      · split
        · exact ⟨by simp only [List.length_append, List.length_singleton, le_rfl], rfl⟩
        · exact ⟨Nat.le_succ _, rfl⟩
  · split
    · split
      · exact ⟨Nat.le_succ _, rfl⟩
      · exact ⟨Nat.le_succ _, rfl⟩
    · split
      · refine ⟨?_, rfl⟩
        simp only [fifoControl]
        split
        · exact Nat.zero_le _
        · exact Nat.le_succ _
      · split
        · exact ⟨Nat.le_succ _, rfl⟩
        · split
          · exact ⟨Nat.le_succ _, rfl⟩
          · exact ⟨Nat.le_succ _, rfl⟩

/-- Every move of the chip brings the end nearer. -/
theorem Move.measure (h : Move u u') (p : List PortAction) :
    Uart.measure (u', p) < Uart.measure (u, p) := by
  cases h with
  | load hwaiting hshifter =>
      simp only [Uart.measure, hwaiting, hshifter, List.length_cons, Option.toList_some,
        Option.toList_none, List.length_nil]
      omega
  | send hshifter =>
      simp only [Uart.measure, hshifter, List.length_cons, Option.toList_some,
        Option.toList_none, List.length_nil]
      omega

/-- Every step but a poll that fails is paid for. -/
theorem step_measure {c c' : Uart × List PortAction} (h : (device fifo com).Step c c') :
    c' = c ∨ measure c' < measure c := by
  cases h with
  | move p hmove => exact .inr (Move.measure hmove p)
  | out u port value p =>
      right
      obtain ⟨hwaiting, hshifter⟩ := waiting_write fifo (port - com) value u
      simp only [measure, device, hshifter, List.map_cons, cost, List.sum_cons]
      omega
  | ready p hready =>
      right
      simp only [measure, List.map_cons, cost, List.sum_cons]
      omega
  | busy p hbusy => exact .inl rfl

/-- The drivers that poll for room only. -/
def Polls (com : UInt16) (c : Uart × List PortAction) : Prop :=
  ∀ port mask, PortAction.poll port mask ∈ c.2 → port = com + 5 ∧ mask = 0x20

/-- A program that only polls still does after a step. -/
theorem Polls.step {c c' : Uart × List PortAction} (hc : Polls com c)
    (h : (device fifo com).Step c c') : Polls com c' := by
  cases h with
  | move p hmove => exact hc
  | out u port value p => exact fun port mask hmem => hc port mask (List.mem_cons_of_mem _ hmem)
  | ready p hready => exact fun port mask hmem => hc port mask (List.mem_cons_of_mem _ hmem)
  | busy p hbusy => exact hc

/-- Everything is done: no access is left, and no byte is on its way. -/
structure Finished (c : Uart × List PortAction) : Prop where
  done : c.2 = []
  waiting : c.1.waiting = []
  shifter : c.1.shifter = none

/-- When the chip has come to rest, the whole stream is on the line. -/
theorem Finished.sent {c : Uart × List PortAction} (h : Finished c) : c.1.sent = c.1.stream := by
  simp only [stream, h.waiting, h.shifter, Option.toList_none, List.append_nil]

/-- A byte that waits or is shifted can move. -/
theorem exists_move (h : u.waiting ≠ [] ∨ u.shifter ≠ none) : ∃ u', Move u u' := by
  cases hshifter : u.shifter with
  | some b => exact ⟨_, .send hshifter⟩
  | none =>
      obtain ⟨b, rest, hwaiting⟩ := List.exists_cons_of_ne_nil
        (h.resolve_right fun hne => hne hshifter)
      exact ⟨_, .load hwaiting hshifter⟩

/-- A move changes something. -/
theorem Move.changes (h : Move u u') (p : List PortAction) : (u', p) ≠ (u, p) := by
  intro hsame
  have hless := Move.measure h p
  rw [hsame] at hless
  exact lt_irrefl _ hless

/-- While the driver waits for room the chip can move. -/
theorem Polls.progress {c : Uart × List PortAction} (hc : Polls com c) (hleft : ¬ Finished c) :
    ∃ c', (device fifo com).Step c c' ∧ c' ≠ c := by
  obtain ⟨u, p⟩ := c
  cases p with
  | nil =>
      have hbusy : u.waiting ≠ [] ∨ u.shifter ≠ none := by
        by_contra hidle
        rw [not_or, not_not, not_not] at hidle
        exact hleft ⟨rfl, hidle.1, hidle.2⟩
      obtain ⟨u', hmove⟩ := exists_move hbusy
      exact ⟨_, .move _ hmove, hmove.changes []⟩
  | cons a p =>
      cases a with
      | out port value =>
          refine ⟨_, .out u port value p, fun hsame => ?_⟩
          have hlength := congrArg (fun c => c.2.length) hsame
          simp at hlength
      | poll port mask =>
          obtain ⟨rfl, rfl⟩ := hc port mask List.mem_cons_self
          by_cases hw : u.waiting = []
          · have hready := (lineStatus_ready u).2 hw
            rw [← read_status fifo com u] at hready
            refine ⟨_, .ready p hready, fun hsame => ?_⟩
            have hlength := congrArg (fun c => c.2.length) hsame
            simp at hlength
          · obtain ⟨u', hmove⟩ := exists_move (.inl hw)
            exact ⟨_, .move _ hmove, hmove.changes _⟩

/-- A driver that polls for room only can be run to its end. -/
theorem exists_run {p : List PortAction} (u : Uart) (hp : Polls com (u, p)) :
    ∃ u', (device fifo com).Run (u, p) (u', []) := by
  induction p generalizing u with
  | nil => exact ⟨u, .refl⟩
  | cons a p ih =>
      have hrest : ∀ u : Uart, Polls com (u, p) :=
        fun u port mask hmem => hp port mask (List.mem_cons_of_mem _ hmem)
      cases a with
      | out port value =>
          obtain ⟨u', hrun⟩ := ih ((device fifo com).out port value u) (hrest _)
          exact ⟨u', hrun.head (.out u port value p)⟩
      | poll port mask =>
          obtain ⟨rfl, rfl⟩ := hp port mask List.mem_cons_self
          obtain ⟨u₁, hmoves, hwaiting, -⟩ := exists_drained u
          obtain ⟨u', hrun⟩ := ih u₁ (hrest _)
          have hready := (lineStatus_ready u₁).2 hwaiting
          rw [← read_status fifo com u₁] at hready
          have hdrain : (device fifo com).Run (u, .poll (com + 5) 0x20 :: p)
              (u₁, .poll (com + 5) 0x20 :: p) :=
            hmoves.lift (fun u => (u, PortAction.poll (com + 5) 0x20 :: p))
              fun _ _ hmove => .move _ hmove
          exact ⟨u', (hdrain.tail (.ready p hready)).trans hrun⟩

/-- A driver that polls for room only comes to its end, and then the chip sends what is left. -/
theorem finishes (c : Nat → Uart × List PortAction) (hstart : Polls com (c 0))
    (hstep : ∀ n, c (n + 1) = c n ∨ (device fifo com).Step (c n) (c (n + 1)))
    (hfair : ∀ n, (∃ c', (device fifo com).Step (c n) c' ∧ c' ≠ c n) →
      ∃ m, n ≤ m ∧ c (m + 1) ≠ c m) : ∃ n, Finished (c n) :=
  Device.finishes_of_fair (Polls com) Finished measure (fun _ _ => Polls.step)
    (fun _ _ => step_measure) (fun _ hc => hc.progress) c hstart hstep hfair

/-! ## The eager schedule -/

/-- The move that the chip can make. -/
def advance (u : Uart) : Uart :=
  match u.shifter, u.waiting with
  | some b, _ => { u with shifter := none, sent := u.sent ++ [b] }
  | none, b :: rest => { u with waiting := rest, shifter := some b }
  | none, [] => u

/-- The driver goes on when it can, else the chip moves. -/
def next (fifo : Bool) (com : UInt16) (c : Uart × List PortAction) : Uart × List PortAction :=
  match c.2 with
  | [] => (c.1.advance, [])
  | .out port v :: p => ((device fifo com).out port v c.1, p)
  | .poll port mask :: p =>
      if (device fifo com).read port c.1 &&& mask ≠ 0 then (c.1, p)
      else (c.1.advance, .poll port mask :: p)

/-- The chip advances unless it has nothing to do. -/
theorem advance_eq (u : Uart) : u.advance = u ∧ u.waiting = [] ∧ u.shifter = none ∨
    Move u u.advance := by
  unfold advance
  cases hshifter : u.shifter with
  | some b => exact .inr (.send hshifter)
  | none =>
      cases hwaiting : u.waiting with
      | nil => exact .inl ⟨rfl, rfl, rfl⟩
      | cons b rest => exact .inr (.load hwaiting hshifter)

/-- The schedule takes steps of the chip and of the program. -/
theorem next_step (c : Uart × List PortAction) :
    next fifo com c = c ∨ (device fifo com).Step c (next fifo com c) := by
  obtain ⟨u, p⟩ := c
  cases p with
  | nil =>
      rcases advance_eq u with ⟨hsame, -⟩ | hmove
      · exact .inl (Prod.ext hsame rfl)
      · exact .inr (.move [] hmove)
  | cons a p =>
      cases a with
      | out port v => exact .inr (.out u port v p)
      | poll port mask =>
          simp only [next]
          split
          · rename_i hready
            exact .inr (.ready p hready)
          · rcases advance_eq u with ⟨hsame, -⟩ | hmove
            · exact .inl (Prod.ext hsame rfl)
            · exact .inr (.move _ hmove)

/-- The eager schedule stops only at the end. -/
theorem next_ne {c : Uart × List PortAction} (hc : Polls com c) (hleft : ¬ Finished c) :
    next fifo com c ≠ c := by
  obtain ⟨u, p⟩ := c
  cases p with
  | nil =>
      rcases advance_eq u with ⟨-, hwaiting, hshifter⟩ | hmove
      · exact absurd ⟨rfl, hwaiting, hshifter⟩ hleft
      · exact hmove.changes []
  | cons a p =>
      cases a with
      | out port v =>
          intro hsame
          have hlength := congrArg (fun c => c.2.length) hsame
          simp [next] at hlength
      | poll port mask =>
          obtain ⟨rfl, rfl⟩ := hc port mask List.mem_cons_self
          simp only [next, read_status]
          split
          · intro hsame
            have hlength := congrArg (fun c => c.2.length) hsame
            simp at hlength
          · rename_i hbusy
            rcases advance_eq u with ⟨-, hwaiting, -⟩ | hmove
            · exact absurd ((lineStatus_ready u).2 hwaiting) hbusy
            · exact hmove.changes _

/-- The program only polls along the schedule. -/
theorem polls_next {c : Uart × List PortAction} (hc : Polls com c) (n : Nat) :
    Polls com ((next fifo com)^[n] c) := by
  induction n with
  | zero => exact hc
  | succ n ih =>
      rw [Function.iterate_succ_apply']
      rcases @next_step fifo com ((next fifo com)^[n] c) with hsame | hstep
      · rw [hsame]
        exact ih
      · exact ih.step hstep

/-- The eager schedule is fair. -/
theorem next_fair {c : Uart × List PortAction} (hc : Polls com c) (n : Nat)
    (h : ∃ c', (device fifo com).Step ((next fifo com)^[n] c) c' ∧
      c' ≠ (next fifo com)^[n] c) :
    ∃ m, n ≤ m ∧ (next fifo com)^[m + 1] c ≠ (next fifo com)^[m] c := by
  refine ⟨n, le_rfl, ?_⟩
  rw [Function.iterate_succ_apply']
  refine next_ne (polls_next hc n) fun hend => ?_
  obtain ⟨c', hstep, hne⟩ := h
  generalize (next fifo com)^[n] c = d at hstep hne hend
  obtain ⟨hdone, hwaiting, hshifter⟩ := hend
  cases hstep with
  | move p hmove =>
      cases hmove with
      | load hw hs => exact List.cons_ne_nil _ _ (hw.symm.trans hwaiting)
      | send hs => exact Option.some_ne_none _ (hs.symm.trans hshifter)
  | out u port value p => exact List.cons_ne_nil _ _ hdone
  | ready p hready => exact List.cons_ne_nil _ _ hdone
  | busy p hbusy => exact List.cons_ne_nil _ _ hdone

end Uart

end SoKernel
