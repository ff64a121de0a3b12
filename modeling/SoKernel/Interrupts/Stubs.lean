import Mathlib

/-!
# The interrupt entry stubs

This module models {lit}`interrupt_handler.s`, {lit}`timer_handler.s` and
{lit}`syscall_handler.s` instruction by instruction.  A stub saves registers on the stack,
calls a C function and restores them.  The C function is a parameter: it is any change of
the machine that respects the calling convention.

The machine has the eight general registers and memory of 32-bit words.  The stubs
access memory at the stack pointer and at multiples of 4 from it only, so words do not
overlap.

Main results:

- Theorem {lit}`loadsFrame_of_keepsRegisters`: the timer and syscall stubs return with the registers
  of the saved frame.
- Theorem {lit}`stub_transparent_iff`: a stub returns with the interrupted registers exactly when
  it saves {lit}`ecx` and {lit}`edx` or the C function keeps them.
-/

namespace SoKernel

/-- The general registers. -/
inductive Reg where
  | eax
  | ebx
  | ecx
  | edx
  | esi
  | edi
  | ebp
  | esp
deriving DecidableEq

/-- A machine word. -/
abbrev Word := BitVec 32

/-- Registers and memory. -/
structure Machine where
  regs : Reg → Word
  mem : Word → Word

namespace Machine

/-- Load a register. -/
def set (s : Machine) (r : Reg) (v : Word) : Machine :=
  { s with regs := Function.update s.regs r v }

/-- Store a word. -/
def store (s : Machine) (addr v : Word) : Machine :=
  { s with mem := Function.update s.mem addr v }

/-- Move the stack pointer down and store a word there. -/
def push (s : Machine) (v : Word) : Machine :=
  (s.set .esp (s.regs .esp - 4)).store (s.regs .esp - 4) v

/-- Load a register from the top of the stack and move the stack pointer up. -/
def pop (s : Machine) (r : Reg) : Machine :=
  (s.set .esp (s.regs .esp + 4)).set r (s.mem (s.regs .esp))

end Machine

/-! ## Instructions -/

/-- The instructions of the stubs. -/
inductive Instr where
  | pushReg (r : Reg)
  | pushImm (v : Word)
  | pushStack (offset : Word)
  | popReg (r : Reg)
  | movFromStack (r : Reg) (offset : Word)
  | movToStack (offset : Word) (r : Reg)
  | leaStack (r : Reg)
  | addEsp (n : Word)
  | call
  | iret

/-- A call pushes the return address {lit}`ra`, and the {lit}`ret` of the C function pops it. -/
def callC (ra : Word) (f : Machine → Machine) (s : Machine) : Machine :=
  (f (s.push ra)).set .esp ((f (s.push ra)).regs .esp + 4)

/-- One instruction other than {lit}`iret`. -/
def Instr.step (ra : Word) (f : Machine → Machine) (s : Machine) : Instr → Machine
  | .pushReg r => s.push (s.regs r)
  | .pushImm v => s.push v
  | .pushStack offset => s.push (s.mem (s.regs .esp + offset))
  | .popReg r => s.pop r
  | .movFromStack r offset => s.set r (s.mem (s.regs .esp + offset))
  | .movToStack offset r => s.store (s.regs .esp + offset) (s.regs r)
  | .leaStack r => s.set r (s.regs .esp)
  | .addEsp n => s.set .esp (s.regs .esp + n)
  | .call => callC ra f s
  | .iret => s

/-- Run up to {lit}`iret`; the result is the machine from which it is executed. -/
def runCode (ra : Word) (f : Machine → Machine) : List Instr → Machine → Option Machine
  | [], _ => none
  | .iret :: _, s => some s
  | i :: code, s => runCode ra f code (i.step ra f s)

/-! ## The stubs -/

/-- The entry stubs: the common stub of vectors 33, 39 and 47 with the number it pushes, the
timer stub and the syscall stub. -/
inductive Stub where
  | interrupt (number : Word)
  | timer
  | syscall
deriving DecidableEq

/-- The instructions before the call. -/
def Stub.before : Stub → List Instr
  | .interrupt number =>
      [.pushImm 0, .pushImm number, .pushReg .eax, .pushReg .ebx, .pushStack 8]
  | .timer =>
      [.pushReg .eax, .pushReg .ebx, .pushReg .ecx, .pushReg .edx, .pushReg .esi, .pushReg .edi,
        .pushReg .ebp, .leaStack .eax, .pushReg .eax]
  | .syscall =>
      [.pushReg .eax, .pushReg .ebx, .pushReg .ecx, .pushReg .edx, .pushReg .esi, .pushReg .edi,
        .pushReg .ebp, .movFromStack .eax 24, .leaStack .ecx, .pushReg .ecx, .pushReg .eax]

/-- The instructions after the call. -/
def Stub.after : Stub → List Instr
  | .interrupt _ => [.addEsp 4, .popReg .ebx, .popReg .eax, .addEsp 8, .iret]
  | .timer =>
      [.addEsp 4, .popReg .ebp, .popReg .edi, .popReg .esi, .popReg .edx, .popReg .ecx,
        .popReg .ebx, .popReg .eax, .iret]
  | .syscall =>
      [.addEsp 8, .movToStack 24 .eax, .popReg .ebp, .popReg .edi, .popReg .esi, .popReg .edx,
        .popReg .ecx, .popReg .ebx, .popReg .eax, .iret]

/-- The whole stub. -/
def Stub.code (st : Stub) : List Instr :=
  st.before ++ .call :: st.after

/-- The machine on entry to the C function. -/
def Stub.entry (st : Stub) (ra : Word) (s : Machine) : Machine :=
  (st.before.foldl (fun s i => i.step ra id s) s).push ra

/-- The number of arguments that the stub pushes. -/
def Stub.args : Stub → Word
  | .interrupt _ => 1
  | .timer => 1
  | .syscall => 2

/-! ## The calling convention -/

/-- The C function keeps the registers that belong to its caller. -/
def KeepsRegisters (f : Machine → Machine) : Prop :=
  ∀ s r, r ∈ [Reg.ebx, .esi, .edi, .ebp, .esp] → (f s).regs r = s.regs r

/-- The C function keeps the registers of its caller and the words of the stack above its
return address and its arguments. -/
structure Cdecl (args : Word) (f : Machine → Machine) : Prop where
  registers : KeepsRegisters f
  stack : ∀ s (j : Word), j < 16 →
    (f s).mem (s.regs .esp + 4 * (1 + args + j)) = s.mem (s.regs .esp + 4 * (1 + args + j))

/-! ## What the stubs restore -/

section Stubs

variable {ra : Word} {f : Machine → Machine} {s : Machine}

/-- Where the timer and syscall stubs save a register, from the base of the frame. -/
def frameOffset : Reg → Word
  | .ebp => 0
  | .edi => 4
  | .esi => 8
  | .edx => 12
  | .ecx => 16
  | .ebx => 20
  | .eax => 24
  | .esp => 28

/-- The seven registers of a frame. -/
def savedRegs : List Reg :=
  [.ebp, .edi, .esi, .edx, .ecx, .ebx, .eax]

theorem runCode_code (st : Stub) (ra : Word) (f : Machine → Machine) (s : Machine) :
    runCode ra f st.code s = runCode ra f st.after
      ((f (st.entry ra s)).set .esp ((f (st.entry ra s)).regs .esp + 4)) := by
  cases st <;> rfl

/-- The stack pointer on entry to the C function. -/
theorem entry_esp (st : Stub) (ra : Word) (s : Machine) :
    (st.entry ra s).regs .esp = s.regs .esp - (match st with
      | .interrupt _ => 24
      | .timer => 36
      | .syscall => 40) := by
  cases st <;>
    simp [Stub.entry, Stub.before, Instr.step, Machine.push, Machine.set, Machine.store] <;>
    bv_omega

/-- The words above the arguments on entry to the C function are the saved registers. -/
theorem entry_frame {st : Stub} (hst : st = .timer ∨ st = .syscall) (ra : Word) (s : Machine)
    {r : Reg} (hr : r ∈ savedRegs) :
    (st.entry ra s).mem ((st.entry ra s).regs .esp + 4 * (1 + st.args) + frameOffset r) =
      s.regs r := by
  simp only [savedRegs, List.mem_cons, List.not_mem_nil, or_false] at hr
  rcases hst with rfl | rfl <;>
    rcases hr with rfl | rfl | rfl | rfl | rfl | rfl | rfl <;>
    simp [Stub.entry, Stub.before, Stub.args, Instr.step, Machine.push, Machine.set, Machine.store,
      frameOffset, BitVec.sub_eq_add_neg, BitVec.add_assoc]

/-- The two words that the common stub saves. -/
theorem entry_pair (number ra : Word) (s : Machine) :
    ((Stub.interrupt number).entry ra s).mem
        (((Stub.interrupt number).entry ra s).regs .esp + 8) = s.regs .ebx ∧
      ((Stub.interrupt number).entry ra s).mem
        (((Stub.interrupt number).entry ra s).regs .esp + 12) = s.regs .eax := by
  simp [Stub.entry, Stub.before, Instr.step, Machine.push, Machine.set, Machine.store,
    BitVec.sub_eq_add_neg, BitVec.add_assoc]

/-- The timer stub loads every register from the frame. -/
theorem after_timer (ra : Word) (f : Machine → Machine) (m : Machine) :
    ∃ s', runCode ra f Stub.timer.after (m.set .esp (m.regs .esp + 4)) = some s' ∧
      s'.regs .esp = m.regs .esp + 36 ∧
      ∀ r ∈ savedRegs, s'.regs r = m.mem (m.regs .esp + 8 + frameOffset r) := by
  refine ⟨_, rfl, ?_, fun r hr => ?_⟩
  · simp [Instr.step, Machine.pop, Machine.set, BitVec.add_assoc]
  · simp only [savedRegs, List.mem_cons, List.not_mem_nil, or_false] at hr
    rcases hr with rfl | rfl | rfl | rfl | rfl | rfl | rfl <;>
      simp [Instr.step, Machine.pop, Machine.set, frameOffset, BitVec.add_assoc]

/-- The syscall stub loads every register but {lit}`eax` from the frame. -/
theorem after_syscall (ra : Word) (f : Machine → Machine) (m : Machine) :
    ∃ s', runCode ra f Stub.syscall.after (m.set .esp (m.regs .esp + 4)) = some s' ∧
      s'.regs .esp = m.regs .esp + 40 ∧
      ∀ r ∈ savedRegs, s'.regs r =
        if r = .eax then m.regs .eax else m.mem (m.regs .esp + 12 + frameOffset r) := by
  refine ⟨_, rfl, ?_, fun r hr => ?_⟩
  · simp [Instr.step, Machine.pop, Machine.set, Machine.store, BitVec.add_assoc]
  · simp only [savedRegs, List.mem_cons, List.not_mem_nil, or_false] at hr
    rcases hr with rfl | rfl | rfl | rfl | rfl | rfl | rfl <;>
      simp [Instr.step, Machine.pop, Machine.set, Machine.store, frameOffset, BitVec.add_assoc]

/-- The common stub loads {lit}`ebx` and {lit}`eax` and leaves the rest. -/
theorem after_interrupt (number ra : Word) (f : Machine → Machine) (m : Machine) :
    ∃ s', runCode ra f (Stub.interrupt number).after (m.set .esp (m.regs .esp + 4)) = some s' ∧
      s'.regs .esp = m.regs .esp + 24 ∧ s'.regs .ebx = m.mem (m.regs .esp + 8) ∧
      s'.regs .eax = m.mem (m.regs .esp + 12) ∧
      ∀ r ∈ [Reg.ebp, .edi, .esi, .edx, .ecx], s'.regs r = m.regs r := by
  refine ⟨_, rfl, ?_, ?_, ?_, fun r hr => ?_⟩
  · simp [Instr.step, Machine.pop, Machine.set, BitVec.add_assoc]
  · simp [Instr.step, Machine.pop, Machine.set, BitVec.add_assoc]
  · simp [Instr.step, Machine.pop, Machine.set, BitVec.add_assoc]
  · simp only [List.mem_cons, List.not_mem_nil, or_false] at hr
    rcases hr with rfl | rfl | rfl | rfl | rfl <;>
      simp [Instr.step, Machine.pop, Machine.set]

/-- A stub returns at the hardware frame with the registers of the saved frame as the C
function left it, and with its result in {lit}`eax` for a system call. -/
def LoadsFrame (st : Stub) (ra : Word) (f : Machine → Machine) (s : Machine) : Prop :=
  ∃ s', runCode ra f st.code s = some s' ∧ s'.regs .esp = s.regs .esp ∧
    ∀ r ∈ savedRegs, s'.regs r =
      if st = .syscall ∧ r = .eax then (f (st.entry ra s)).regs .eax
      else (f (st.entry ra s)).mem
        ((st.entry ra s).regs .esp + 4 * (1 + st.args) + frameOffset r)

/-- A stub returns at the hardware frame with the interrupted registers, and with the
result of the dispatcher in {lit}`eax` for a system call. -/
def Transparent (st : Stub) (ra : Word) (f : Machine → Machine) (s : Machine) : Prop :=
  ∃ s', runCode ra f st.code s = some s' ∧ s'.regs .esp = s.regs .esp ∧
    ∀ r ∈ savedRegs, s'.regs r =
      if st = .syscall ∧ r = .eax then (f (st.entry ra s)).regs .eax else s.regs r

/-- The timer and syscall stubs load the frame, whatever the C function has put there. -/
theorem loadsFrame_of_keepsRegisters {st : Stub} (hst : st = .timer ∨ st = .syscall)
    (hf : KeepsRegisters f) : LoadsFrame st ra f s := by
  have hesp := hf (st.entry ra s) .esp (by simp)
  have hentry := entry_esp st ra s
  rcases hst with rfl | rfl
  · obtain ⟨s', hrun, hsp, hregs⟩ := after_timer ra f (f (Stub.timer.entry ra s))
    refine ⟨s', (runCode_code _ _ _ _).trans hrun, ?_, fun r hr => ?_⟩
    · rw [hsp, hesp, hentry, BitVec.sub_add_cancel]
    · rw [hregs r hr, hesp]
      rfl
  · obtain ⟨s', hrun, hsp, hregs⟩ := after_syscall ra f (f (Stub.syscall.entry ra s))
    refine ⟨s', (runCode_code _ _ _ _).trans hrun, ?_, fun r hr => ?_⟩
    · rw [hsp, hesp, hentry, BitVec.sub_add_cancel]
    · rw [hregs r hr, hesp]
      simp only [true_and]
      rfl

/-- The C function keeps the frame, so these stubs return with the interrupted registers. -/
theorem transparent_of_loadsFrame {st : Stub} (hst : st = .timer ∨ st = .syscall)
    (hf : Cdecl st.args f) (h : LoadsFrame st ra f s) : Transparent st ra f s := by
  obtain ⟨s', hrun, hsp, hregs⟩ := h
  refine ⟨s', hrun, hsp, fun r hr => ?_⟩
  rw [hregs r hr, ← entry_frame hst ra s hr]
  -- The saved registers are words 0 to 6 above the arguments.
  have hword : ∃ j : Word, j < 16 ∧ (st.entry ra s).regs .esp + 4 * (1 + st.args) + frameOffset r =
      (st.entry ra s).regs .esp + 4 * (1 + st.args + j) := by
    refine ⟨frameOffset r / 4, ?_, ?_⟩
    · cases r <;> decide
    · rw [BitVec.add_assoc]
      congr 1
      rcases hst with rfl | rfl <;> cases r <;> decide
  obtain ⟨j, hj, hword⟩ := hword
  rw [hword, hf.stack _ j hj]

/-- The common stub returns with whatever the C function left in {lit}`ecx` and {lit}`edx`. -/
theorem interrupt_registers {number : Word} (ra : Word) (s : Machine)
    (hf : Cdecl (Stub.interrupt number).args f) :
    ∃ s', runCode ra f (Stub.interrupt number).code s = some s' ∧ s'.regs .esp = s.regs .esp ∧
      s'.regs .ecx = (f ((Stub.interrupt number).entry ra s)).regs .ecx ∧
      s'.regs .edx = (f ((Stub.interrupt number).entry ra s)).regs .edx ∧
      ∀ r ∈ [Reg.ebp, .edi, .esi, .ebx, .eax], s'.regs r = s.regs r := by
  have hesp := hf.registers ((Stub.interrupt number).entry ra s) .esp (by simp)
  have hentry := entry_esp (.interrupt number) ra s
  obtain ⟨hebx, heax⟩ := entry_pair number ra s
  have hkeep : ∀ r, r ∈ [Reg.ebp, .edi, .esi] →
      (f ((Stub.interrupt number).entry ra s)).regs r = s.regs r := by
    intro r hr
    simp only [List.mem_cons, List.not_mem_nil, or_false] at hr
    rcases hr with rfl | rfl | rfl
    · exact hf.registers _ _ (by simp)
    · exact hf.registers _ _ (by simp)
    · exact hf.registers _ _ (by simp)
  obtain ⟨s', hrun, hsp, hb, ha, hrest⟩ :=
    after_interrupt number ra f (f ((Stub.interrupt number).entry ra s))
  refine ⟨s', (runCode_code _ _ _ _).trans hrun, ?_, hrest .ecx (by simp), hrest .edx (by simp),
    fun r hr => ?_⟩
  · rw [hsp, hesp, hentry, BitVec.sub_add_cancel]
  · simp only [List.mem_cons, List.not_mem_nil, or_false] at hr
    rcases hr with rfl | rfl | rfl | rfl | rfl
    · rw [hrest _ (by simp), hkeep _ (by simp)]
    · rw [hrest _ (by simp), hkeep _ (by simp)]
    · rw [hrest _ (by simp), hkeep _ (by simp)]
    · rw [hb, hesp, ← hebx]
      exact hf.stack _ 0 (by decide)
    · rw [ha, hesp, ← heax]
      exact hf.stack _ 1 (by decide)

/-- The timer and syscall stubs load the saved frame, and a stub returns with the
interrupted registers exactly when it is one of them or the C function happens to keep
{lit}`ecx` and {lit}`edx`. -/
theorem stub_transparent_iff (st : Stub) (ra : Word) (f : Machine → Machine) (s : Machine)
    (hf : KeepsRegisters f) :
    ((st = .timer ∨ st = .syscall) → LoadsFrame st ra f s) ∧
      (Cdecl st.args f → (Transparent st ra f s ↔
        (st = .timer ∨ st = .syscall) ∨
          (f (st.entry ra s)).regs .ecx = s.regs .ecx ∧
            (f (st.entry ra s)).regs .edx = s.regs .edx)) := by
  refine ⟨fun hst => loadsFrame_of_keepsRegisters hst hf, fun hcdecl => ?_⟩
  by_cases hst : st = .timer ∨ st = .syscall
  · exact ⟨fun _ => .inl hst, fun _ =>
      transparent_of_loadsFrame hst hcdecl (loadsFrame_of_keepsRegisters hst hf)⟩
  · obtain ⟨number, rfl⟩ : ∃ number, st = .interrupt number := by
      cases st with
      | interrupt number => exact ⟨number, rfl⟩
      | timer => exact absurd (.inl rfl) hst
      | syscall => exact absurd (.inr rfl) hst
    obtain ⟨s', hrun, hsp, hecx, hedx, hrest⟩ := interrupt_registers ra s hcdecl
    constructor
    · rintro ⟨s₁, hrun₁, -, hregs⟩
      rw [hrun, Option.some.injEq] at hrun₁
      subst hrun₁
      right
      rw [← hecx, ← hedx, hregs .ecx (by simp [savedRegs]), hregs .edx (by simp [savedRegs])]
      simp
    · rintro (hst' | ⟨hc, hd⟩)
      · exact absurd hst' hst
      · refine ⟨s', hrun, hsp, fun r hr => ?_⟩
        rw [if_neg (by simp)]
        simp only [savedRegs, List.mem_cons, List.not_mem_nil, or_false] at hr
        rcases hr with rfl | rfl | rfl | rfl | rfl | rfl | rfl
        · exact hrest _ (by simp)
        · exact hrest _ (by simp)
        · exact hrest _ (by simp)
        · exact hedx.trans hd
        · exact hecx.trans hc
        · exact hrest _ (by simp)
        · exact hrest _ (by simp)

/-- A C function that returns 0 and uses {lit}`ecx` and {lit}`edx`. -/
def sampleHandler (s : Machine) : Machine :=
  ((s.set .eax 0).set .ecx 0).set .edx 0

theorem cdecl_sampleHandler (args : Word) : Cdecl args sampleHandler := by
  refine ⟨fun s r hr => ?_, fun s j _ => rfl⟩
  simp only [List.mem_cons, List.not_mem_nil, or_false] at hr
  rcases hr with rfl | rfl | rfl | rfl | rfl <;> simp [sampleHandler, Machine.set]

theorem stub_transparent_iff_timer :
    Transparent .timer 0 sampleHandler ⟨fun _ => 7, fun _ => 0⟩ ↔
      (Stub.timer = .timer ∨ Stub.timer = .syscall) ∨
        (sampleHandler (Stub.timer.entry 0 ⟨fun _ => 7, fun _ => 0⟩)).regs .ecx = 7 ∧
          (sampleHandler (Stub.timer.entry 0 ⟨fun _ => 7, fun _ => 0⟩)).regs .edx = 7 :=
  (stub_transparent_iff .timer 0 sampleHandler ⟨fun _ => 7, fun _ => 0⟩
    (cdecl_sampleHandler 1).registers).2 (cdecl_sampleHandler 1)

/-- The keyboard interrupt returns with a changed {lit}`ecx`. -/
theorem keyboard_not_transparent :
    Cdecl (Stub.interrupt 33).args sampleHandler ∧
      ¬ Transparent (.interrupt 33) 0 sampleHandler ⟨fun _ => 7, fun _ => 0⟩ := by
  refine ⟨cdecl_sampleHandler _, ?_⟩
  rintro ⟨s₁, hrun₁, -, hregs⟩
  obtain ⟨s', hrun, -, hecx, -⟩ := interrupt_registers 0
    ⟨fun _ => 7, fun _ => 0⟩ (cdecl_sampleHandler _)
  rw [hrun, Option.some.injEq] at hrun₁
  subst hrun₁
  have hseven := hregs .ecx (by simp [savedRegs])
  rw [hecx] at hseven
  simp [sampleHandler, Machine.set] at hseven

end Stubs

end SoKernel
