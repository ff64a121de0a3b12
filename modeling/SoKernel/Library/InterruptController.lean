import SoKernel.Library.PortIo

/-!
# A pair of interrupt controllers

Two controllers of the kind 8259, the second one behind line 2 of the first.  A controller takes
its settings in a sequence of initialization words, collects requests, and hands the processor the
vector of the request of the highest priority; a line that was handed over is in service until it
is acknowledged, and holds back the lines of lower priority.

The rotation of priorities and the special modes are left out.

Main results:

- Theorem {lit}`Pic.endOfInterrupt_acknowledge`: acknowledging the line that was handed over takes
  back that it is in service.
- Theorem {lit}`Pics.settings_out`: the lines do not matter for the ports.
-/

namespace SoKernel

/-- The word that a controller expects on its second port: a mask, or one of the initialization
words after the first. -/
inductive PicPhase where
  | ready
  | base
  | cascade
  | mode
deriving DecidableEq

/-- The registers of a controller. -/
structure Pic where
  requested : Fin 8 → Bool
  inService : Fin 8 → Bool
  masked : Fin 8 → Bool
  base : UInt8
  cascade : UInt8
  mode : UInt8
  icw1 : UInt8
  phase : PicPhase

namespace Pic

variable (p : Pic)

/-- A line can be handed over: it is requested and not masked, and neither the line nor one of a
higher priority is in service. -/
def Eligible (i : Fin 8) : Prop :=
  p.requested i = true ∧ p.masked i = false ∧ ∀ j ≤ i, p.inService j = false

instance (i : Fin 8) : Decidable (p.Eligible i) :=
  inferInstanceAs (Decidable (_ ∧ _ ∧ _))

/-- The line that is handed over next. -/
def pending : Option (Fin 8) :=
  Fin.find? fun i => p.Eligible i

/-- The line in service of the highest priority. -/
def serving : Option (Fin 8) :=
  Fin.find? p.inService

/-- The acknowledge cycle of the processor for a line. -/
def acknowledge (i : Fin 8) : Pic :=
  { p with
    requested := Function.update p.requested i false
    inService := Function.update p.inService i (p.mode &&& 2 == 0) }

/-- The end of interrupt, without the number of a line. -/
def endOfInterrupt : Pic :=
  match p.serving with
  | none => p
  | some i => { p with inService := Function.update p.inService i false }

/-- The first port: the first initialization word, or a command. -/
def command (v : UInt8) : Pic :=
  if v &&& 0x10 ≠ 0 then
    { p with
      requested := fun _ => false
      inService := fun _ => false
      masked := fun _ => false
      mode := 0
      icw1 := v
      phase := .base }
  else if v &&& 0xF8 = 0x20 then p.endOfInterrupt
  else p

/-- The phase after the words of a cascade. -/
def lastPhase : PicPhase :=
  if p.icw1 &&& 1 ≠ 0 then .mode else .ready

/-- The second port: the initialization words after the first, or the mask. -/
def data (v : UInt8) : Pic :=
  match p.phase with
  | .ready => { p with masked := fun i => v.toNat.testBit i }
  | .base => { p with
      base := v &&& 0xF8
      phase := if p.icw1 &&& 2 ≠ 0 then p.lastPhase else .cascade }
  | .cascade => { p with cascade := v, phase := p.lastPhase }
  | .mode => { p with mode := v, phase := .ready }

/-- The vector of a line. -/
def vector (i : Fin 8) : Nat :=
  p.base.toNat + i

/-- The vector when the request has gone. -/
def spurious : Nat :=
  p.vector 7

/-! ## Words -/

section Words

variable {v : UInt8}

/-- The first initialization word clears the registers and waits for the second one. -/
theorem command_init (h : v &&& 0x10 ≠ 0) : p.command v = { p with
    requested := fun _ => false
    inService := fun _ => false
    masked := fun _ => false
    mode := 0
    icw1 := v
    phase := .base } :=
  if_pos h

/-- The command of the handlers is the end of an interrupt. -/
theorem command_end : p.command 0x20 = p.endOfInterrupt := by
  rw [command, if_neg (by decide), if_pos (by decide)]

variable {p}

/-- After the initialization the data port sets the mask. -/
theorem data_ready (h : p.phase = .ready) :
    p.data v = { p with masked := fun i => v.toNat.testBit i } := by
  rw [data, h]

/-- The second initialization word sets the base of the vectors. -/
theorem data_base (h : p.phase = .base) (hcascade : p.icw1 &&& 2 = 0) :
    p.data v = { p with base := v &&& 0xF8, phase := .cascade } := by
  rw [data, h]
  simp only [hcascade, ne_eq, not_true_eq_false, if_false]

/-- The third initialization word says where the cascade is. -/
theorem data_cascade (h : p.phase = .cascade) (hmode : p.icw1 &&& 1 ≠ 0) :
    p.data v = { p with cascade := v, phase := .mode } := by
  rw [data, h]
  simp only [lastPhase, if_pos hmode]

/-- The fourth initialization word sets the mode and is the last one. -/
theorem data_mode (h : p.phase = .mode) : p.data v = { p with mode := v, phase := .ready } := by
  rw [data, h]

end Words

/-! ## Priorities -/

variable {p} {i : Fin 8}

/-- A pending line may interrupt. -/
theorem pending_some (h : p.pending = some i) : p.Eligible i := by
  simpa using (Fin.find?_eq_some_iff.1 h).1

/-- Of the lines that may interrupt the first one is pending. -/
theorem pending_first (hi : p.Eligible i) (hless : ∀ j < i, ¬ p.Eligible j) :
    p.pending = some i :=
  Fin.find?_eq_some_iff.2 ⟨decide_eq_true hi, fun j hj => decide_eq_false (hless j hj)⟩

/-- No line is pending when none may interrupt. -/
theorem pending_none : p.pending = none ↔ ∀ i, ¬ p.Eligible i := by
  simp [pending]

/-- When nothing is in service, the end of an interrupt does nothing. -/
theorem endOfInterrupt_idle (h : ∀ i, p.inService i = false) : p.endOfInterrupt = p := by
  have hnone : p.serving = none := Fin.find?_eq_none_iff.2 h
  rw [endOfInterrupt, hnone]

/-- The end of an interrupt acknowledges the line of the highest priority. -/
theorem endOfInterrupt_serving (hi : p.inService i = true) (hless : ∀ j < i, p.inService j = false) :
    p.endOfInterrupt = { p with inService := Function.update p.inService i false } := by
  have hsome : p.serving = some i := Fin.find?_eq_some_iff.2 ⟨hi, hless⟩
  rw [endOfInterrupt, hsome]

/-- Acknowledging the line that was handed over takes back that it is in service. -/
theorem endOfInterrupt_acknowledge (h : p.Eligible i) (hmode : p.mode &&& 2 = 0) :
    (p.acknowledge i).endOfInterrupt =
      { p with requested := Function.update p.requested i false } := by
  have hservice : (p.acknowledge i).inService = Function.update p.inService i true := by
    simp only [acknowledge, hmode, beq_self_eq_true]
  rw [endOfInterrupt_serving (i := i)]
  · have hback : Function.update p.inService i false = p.inService := by
      rw [← h.2.2 i le_rfl, Function.update_eq_self]
    rw [hservice, Function.update_idem, hback]
    rfl
  · rw [hservice, Function.update_self]
  · intro j hj
    rw [hservice, Function.update_of_ne hj.ne]
    exact h.2.2 j hj.le

/-! ## Settings -/

/-- A controller without its requests. -/
def settings (p : Pic) : Pic :=
  { p with requested := fun _ => false }

/-- The settings say which line is served. -/
theorem serving_settings (p : Pic) : p.settings.serving = p.serving :=
  rfl

/-- The end of an interrupt changes the settings by the settings. -/
theorem settings_endOfInterrupt (p : Pic) :
    p.settings.endOfInterrupt.settings = p.endOfInterrupt.settings := by
  simp only [endOfInterrupt, serving_settings]
  cases p.serving with
  | none => rfl
  | some i => rfl

/-- The requests do not matter for the ports. -/
theorem settings_command (p : Pic) (v : UInt8) :
    (p.settings.command v).settings = (p.command v).settings := by
  unfold command
  split
  · rfl
  · split
    · exact p.settings_endOfInterrupt
    · rfl

/-- A write to the data port changes the settings by the settings. -/
theorem settings_data (p : Pic) (v : UInt8) :
    (p.settings.data v).settings = (p.data v).settings := by
  unfold data
  simp only [settings]
  cases p.phase with
  | ready => rfl
  | base => rfl
  | cascade => rfl
  | mode => rfl

end Pic

/-- Two controllers, the second one behind line 2 of the first. -/
structure Pics where
  master : Pic
  slave : Pic

namespace Pics

/-- The first controller, with the request of the second one. -/
def view (p : Pics) : Pic :=
  { p.master with
    requested := Function.update p.master.requested 2 p.slave.pending.isSome }

/-- The acknowledge cycle of the processor, with the vector that it gets. -/
def interruptAcknowledge (p : Pics) : Pics × Nat :=
  match p.view.pending with
  | none => (p, p.master.spurious)
  | some i =>
      if i = 2 then
        match p.slave.pending with
        | none => (⟨p.master.acknowledge 2, p.slave⟩, p.slave.spurious)
        | some j => (⟨p.master.acknowledge 2, p.slave.acknowledge j⟩, p.slave.vector j)
      else (⟨p.master.acknowledge i, p.slave⟩, p.master.vector i)

/-- A line of one of the controllers rises or falls. -/
inductive Move : Pics → Pics → Prop
  | master (p : Pics) (i : Fin 8) (level : Bool) : Move p { p with
      master := { p.master with requested := Function.update p.master.requested i level } }
  | slave (p : Pics) (i : Fin 8) (level : Bool) : Move p { p with
      slave := { p.slave with requested := Function.update p.slave.requested i level } }

/-- The ports of the controllers. -/
def out (port : UInt16) (v : UInt8) (p : Pics) : Pics :=
  if port = 0x20 then { p with master := p.master.command v }
  else if port = 0x21 then { p with master := p.master.data v }
  else if port = 0xA0 then { p with slave := p.slave.command v }
  else if port = 0xA1 then { p with slave := p.slave.data v }
  else p

/-- The controllers as a device; what can be read from them is left out. -/
def device : Device Pics where
  out := out
  read _ _ := 0
  move := Move

/-- The controllers without their requests. -/
def settings (p : Pics) : Pics :=
  ⟨p.master.settings, p.slave.settings⟩

section Ports

variable (p : Pics) (v : UInt8)

/-- The command port of the first controller. -/
@[simp] theorem out_master_command : p.out 0x20 v = { p with master := p.master.command v } :=
  if_pos rfl

/-- The data port of the first controller. -/
@[simp] theorem out_master_data : p.out 0x21 v = { p with master := p.master.data v } := by
  rw [out, if_neg (by decide), if_pos rfl]

/-- The command port of the second controller. -/
@[simp] theorem out_slave_command : p.out 0xA0 v = { p with slave := p.slave.command v } := by
  rw [out, if_neg (by decide), if_neg (by decide), if_pos rfl]

/-- The data port of the second controller. -/
@[simp] theorem out_slave_data : p.out 0xA1 v = { p with slave := p.slave.data v } := by
  rw [out, if_neg (by decide), if_neg (by decide), if_neg (by decide), if_pos rfl]

end Ports

variable {p p' : Pics}

/-- The lines change no setting. -/
theorem Move.settings (h : Move p p') : p'.settings = p.settings := by
  cases h with
  | master i level => rfl
  | slave i level => rfl

/-- The lines do not matter for the ports. -/
theorem settings_out (p : Pics) (port : UInt16) (v : UInt8) :
    (p.settings.out port v).settings = (p.out port v).settings := by
  unfold out
  split
  · exact congrArg (Pics.mk · _) (p.master.settings_command v)
  · split
    · exact congrArg (Pics.mk · _) (p.master.settings_data v)
    · split
      · exact congrArg (Pics.mk _) (p.slave.settings_command v)
      · split
        · exact congrArg (Pics.mk _) (p.slave.settings_data v)
        · rfl

end Pics

end SoKernel
