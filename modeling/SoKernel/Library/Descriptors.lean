import Mathlib.Tactic

/-!
# Segments, gates and privilege

The part of the 32-bit protected mode that decides who may do what: segment descriptors, gates, the
delivery of an interrupt with its change of stack, the loading of a segment register, far jumps and
the access to ports.

Local descriptor tables, task switches, call gates and 16-bit gates are left out: what would go
through one of them is refused.  The checks are those of the processor and in its order.

Main results:

- Theorem {lit}`Processor.enter_of_gate`: the delivery of an interrupt through a gate in order.
- Theorem {lit}`Processor.exception_shutdown`: an exception without gates stops the processor.
-/

namespace SoKernel

/-- The bits of a word from {lit}`lo` on. -/
def bitField (w lo n : Nat) : Nat :=
  w / 2 ^ lo % 2 ^ n

/-- A segment as the processor holds it: the limit is in bytes. -/
structure Segment where
  base : Nat
  limit : Nat
  access : Nat
deriving DecidableEq

namespace Segment

/-- A segment descriptor of eight bytes. -/
def ofWord (w : Nat) : Segment where
  base := bitField w 16 24 + 2 ^ 24 * bitField w 56 8
  limit :=
    let limit := bitField w 0 16 + 2 ^ 16 * bitField w 48 4
    if bitField w 55 1 = 1 then 4096 * limit + 4095 else limit
  access := bitField w 40 8

def present (s : Segment) : Bool :=
  bitField s.access 7 1 == 1

/-- The privilege level. -/
def dpl (s : Segment) : Nat :=
  bitField s.access 5 2

/-- A code segment. -/
def isCode (s : Segment) : Bool :=
  bitField s.access 3 2 == 3

def conforming (s : Segment) : Bool :=
  bitField s.access 2 1 == 1

/-- A code segment that can be read. -/
def isReadableCode (s : Segment) : Bool :=
  s.isCode && bitField s.access 1 1 == 1

/-- A data segment. -/
def isData (s : Segment) : Bool :=
  bitField s.access 3 2 == 2

def isWritableData (s : Segment) : Bool :=
  s.isData && bitField s.access 1 1 == 1

end Segment

/-- A gate: where it leads to, and its type with its privilege level. -/
structure Gate where
  offset : Nat
  selector : Nat
  attr : Nat
deriving DecidableEq

namespace Gate

/-- A gate descriptor of eight bytes. -/
def ofWord (w : Nat) : Gate where
  offset := bitField w 0 16 + 2 ^ 16 * bitField w 48 16
  selector := bitField w 16 16
  attr := bitField w 40 8

/-- A gate for interrupts or for traps. -/
def isGate (g : Gate) : Bool :=
  bitField g.attr 0 5 == 0xE || bitField g.attr 0 5 == 0xF

/-- An interrupt gate turns interrupts off. -/
def isInterrupt (g : Gate) : Bool :=
  bitField g.attr 0 5 == 0xE

def dpl (g : Gate) : Nat :=
  bitField g.attr 5 2

def present (g : Gate) : Bool :=
  bitField g.attr 7 1 == 1

end Gate

/-- The exceptions that the checks raise, with their error codes. -/
inductive Fault where
  | invalidTss (code : Nat)
  | notPresent (code : Nat)
  | stackFault (code : Nat)
  | generalProtection (code : Nat)
deriving DecidableEq

/-- The vector of an exception. -/
def Fault.vector : Fault → Nat
  | invalidTss _ => 10
  | notPresent _ => 11
  | stackFault _ => 12
  | generalProtection _ => 13

/-- Where an interrupt enters: code segment and offset, the new stack if the privilege changes,
and whether interrupts are off. -/
structure Entry where
  cs : Nat
  eip : Nat
  stack : Option (Nat × Nat)
  interruptsOff : Bool
deriving DecidableEq

/-- The tables of the processor, its task register, and memory by double words. -/
structure Processor where
  gdt : Nat → Nat
  gdtLimit : Nat
  idt : Nat → Nat
  idtLimit : Nat
  task : Segment
  memory : Nat → Nat

namespace Processor

variable (P : Processor)

/-- The segment that a selector stands for, if it is in the table. -/
def segment (selector : Nat) : Option Segment :=
  if selector / 4 % 2 = 1 ∨ P.gdtLimit < 8 * (selector / 8) + 7 then none
  else some (Segment.ofWord (P.gdt (selector / 8)))

/-- The stack for a privilege level, from the task state segment. -/
def newStack (dpl ext : Nat) : Except Fault (Nat × Nat) :=
  if P.task.limit < 8 * dpl + 9 then .error (.invalidTss ext)
  else
    let esp := P.memory (P.task.base + 8 * dpl + 4)
    let ss := P.memory (P.task.base + 8 * dpl + 8) % 2 ^ 16
    if ss / 4 = 0 then .error (.invalidTss ext)
    else if ss % 4 ≠ dpl then .error (.invalidTss (ss / 4 * 4 + ext))
    else
      match P.segment ss with
      | none => .error (.invalidTss (ss / 4 * 4 + ext))
      | some s =>
          if s.dpl ≠ dpl ∨ s.isWritableData = false then .error (.invalidTss (ss / 4 * 4 + ext))
          else if s.present = false then .error (.stackFault (ss / 4 * 4 + ext))
          else .ok (ss, esp)

/-- The code that a gate leads to. -/
def throughGate (cpl ext : Nat) (g : Gate) : Except Fault Entry :=
  if g.selector / 4 = 0 then .error (.generalProtection ext)
  else
    match P.segment g.selector with
    | none => .error (.generalProtection (g.selector / 4 * 4 + ext))
    | some s =>
        if s.isCode = false ∨ cpl < s.dpl then
          .error (.generalProtection (g.selector / 4 * 4 + ext))
        else if s.present = false then .error (.notPresent (g.selector / 4 * 4 + ext))
        else if s.conforming = false ∧ s.dpl < cpl then do
          let stack ← P.newStack s.dpl ext
          if s.limit < g.offset then .error (.generalProtection ext)
          else .ok ⟨g.selector / 4 * 4 + s.dpl, g.offset, some stack, g.isInterrupt⟩
        else if s.limit < g.offset then .error (.generalProtection ext)
        else .ok ⟨g.selector / 4 * 4 + cpl, g.offset, none, g.isInterrupt⟩

/-- The delivery of an interrupt: by the instruction {lit}`int`, or from outside the program. -/
def enter (cpl : Nat) (software : Bool) (vector : Nat) : Except Fault Entry :=
  let ext := if software then 0 else 1
  if P.idtLimit < 8 * vector + 7 then .error (.generalProtection (8 * vector + 2 + ext))
  else
    let g := Gate.ofWord (P.idt vector)
    if g.isGate = false then .error (.generalProtection (8 * vector + 2 + ext))
    else if software = true ∧ g.dpl < cpl then .error (.generalProtection (8 * vector + 2))
    else if g.present = false then .error (.notPresent (8 * vector + 2 + ext))
    else P.throughGate cpl ext g

/-- An exception.  The fault that its delivery raises is delivered in turn, or as a double fault
when the exception is of the kind that does not allow another one; when a double fault cannot be
delivered either, the processor stops. -/
def exception (cpl vector : Nat) : Option Entry :=
  match P.enter cpl false vector with
  | .ok e => some e
  | .error f =>
      if vector = 8 then none
      else if vector ∈ [0, 10, 11, 12, 13, 14] then (P.enter cpl false 8).toOption
      else
        match P.enter cpl false f.vector with
        | .ok e => some e
        | .error _ => (P.enter cpl false 8).toOption

/-- A selector can be loaded to a data segment register. -/
def LoadsData (cpl selector : Nat) : Prop :=
  selector / 4 = 0 ∨ ∃ s, P.segment selector = some s ∧ s.present = true ∧
    (s.isData = true ∨ s.isReadableCode = true) ∧
    (s.isCode = true ∧ s.conforming = true ∨ max cpl (selector % 4) ≤ s.dpl)

/-- A far jump to a selector is allowed. -/
def JumpsTo (cpl selector : Nat) : Prop :=
  selector / 4 ≠ 0 ∧ ∃ s, P.segment selector = some s ∧ s.isCode = true ∧ s.present = true ∧
    (s.conforming = true ∧ s.dpl ≤ cpl ∨
      s.conforming = false ∧ s.dpl = cpl ∧ selector % 4 ≤ cpl)

/-- The instruction {lit}`iret` leads from ring 0 to the given code and stack, of ring
{lit}`cs % 4`. -/
def ReturnsTo (cs eip ss : Nat) : Prop :=
  cs / 4 ≠ 0 ∧ ss / 4 ≠ 0 ∧ 0 < cs % 4 ∧ ss % 4 = cs % 4 ∧
    (∃ c, P.segment cs = some c ∧ c.isCode = true ∧ c.present = true ∧ eip ≤ c.limit ∧
      (c.conforming = true ∧ c.dpl ≤ cs % 4 ∨ c.conforming = false ∧ c.dpl = cs % 4)) ∧
    ∃ s, P.segment ss = some s ∧ s.isWritableData = true ∧ s.present = true ∧ s.dpl = cs % 4

/-- Access to {lit}`width` ports from {lit}`port` on: by the privilege level of the flags, or by
the bit map in the task state segment, of which two bytes are read. -/
def AccessesPorts (cpl iopl port width : Nat) : Prop :=
  cpl ≤ iopl ∨
    let map := P.memory (P.task.base + 100) / 2 ^ 16 % 2 ^ 16 + port / 8
    map + 1 ≤ P.task.limit ∧ ∀ i < width,
      bitField (P.memory (P.task.base + (map + (port % 8 + i) / 8) / 4 * 4))
        (8 * ((map + (port % 8 + i) / 8) % 4) + (port % 8 + i) % 8) 1 = 0

/-! ## Deliveries -/

variable {P} {cpl vector : Nat} {software : Bool} {g : Gate}

/-- Without a gate nothing enters. -/
theorem enter_noGate (h : (Gate.ofWord (P.idt vector)).isGate = false) :
    P.enter cpl software vector =
      .error (.generalProtection (8 * vector + 2 + if software then 0 else 1)) := by
  by_cases hlimit : P.idtLimit < 8 * vector + 7
  · exact if_pos hlimit
  · exact (if_neg hlimit).trans (if_pos h)

/-- A gate of a higher privilege is not for the instruction {lit}`int`. -/
theorem enter_denied (hlimit : 8 * vector + 7 ≤ P.idtLimit)
    (hgate : (Gate.ofWord (P.idt vector)).isGate = true)
    (hdpl : (Gate.ofWord (P.idt vector)).dpl < cpl) :
    P.enter cpl true vector = .error (.generalProtection (8 * vector + 2)) := by
  have hlimit' : ¬ P.idtLimit < 8 * vector + 7 := by omega
  have hgate' : ¬ (Gate.ofWord (P.idt vector)).isGate = false := by
    rw [hgate]
    decide
  exact (if_neg hlimit').trans ((if_neg hgate').trans (if_pos ⟨rfl, hdpl⟩))

/-- The delivery through a gate that is in order. -/
theorem enter_of_gate (hlimit : 8 * vector + 7 ≤ P.idtLimit)
    (hword : Gate.ofWord (P.idt vector) = g) (hgate : g.isGate = true)
    (hdpl : software = true → cpl ≤ g.dpl) (hpresent : g.present = true) :
    P.enter cpl software vector = P.throughGate cpl (if software then 0 else 1) g := by
  subst hword
  have hlimit' : ¬ P.idtLimit < 8 * vector + 7 := by omega
  have hgate' : ¬ (Gate.ofWord (P.idt vector)).isGate = false := by
    rw [hgate]
    decide
  have hdpl' : ¬ (software = true ∧ (Gate.ofWord (P.idt vector)).dpl < cpl) := by
    intro h
    exact absurd (hdpl h.1) (Nat.not_le.2 h.2)
  have hpresent' : ¬ (Gate.ofWord (P.idt vector)).present = false := by
    rw [hpresent]
    decide
  exact (if_neg hlimit').trans ((if_neg hgate').trans ((if_neg hdpl').trans (if_neg hpresent')))

/-- An exception stops the processor when neither it nor another exception has a gate. -/
theorem exception_shutdown (h : ∀ v < 32, (Gate.ofWord (P.idt v)).isGate = false)
    (hvector : vector < 32) : P.exception cpl vector = none := by
  unfold exception
  rw [enter_noGate (h vector hvector)]
  simp only [Fault.vector]
  rw [enter_noGate (h 8 (by norm_num)), enter_noGate (h 13 (by norm_num))]
  split
  · rfl
  · split
    · rfl
    · rfl

end Processor

end SoKernel
