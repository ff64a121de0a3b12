import SoKernel.Library.InterruptController
import SoKernel.Library.Traces

/-!
# The interrupt controllers

This module models {lit}`pic.c` and the unmasking at the end of {lit}`init_idt`.  The controllers
are initialized with the vectors from {lit}`0x20` on, and then only the timer and the keyboard are
let through.  A handler runs with interrupts off and acknowledges its interrupt once, at its end.

The lines rise and fall whenever they like, also between the words of the initialization and while
a handler runs, and a request may have gone when the processor takes it.

Main results:

- Theorem {lit}`settings_of_boot`: what the controllers are set to after {lit}`init_idt`.
- Theorem {lit}`interrupts_served`: which interrupts come in a run, and that none is left in
  service.
- Theorem {lit}`acknowledge_restores_iff`: after which interrupts {lit}`pic_acknowledge` leaves the
  controllers as they were.
-/

namespace SoKernel

/-! ## The source functions -/

/-- {lit}`pic_init`. -/
def picInit : List (UInt16 × UInt8) :=
  [(0x20, 0x11), (0xA0, 0x11), (0x21, 0x20), (0xA1, 0x28), (0x21, 0x04), (0xA1, 0x02),
    (0x21, 0x01), (0xA1, 0x01), (0x21, 0xFF), (0xA1, 0xFF)]

/-- The writes of {lit}`init_idt` to the controllers: {lit}`pic_init`, and a mask that lets the
timer and the keyboard through. -/
def initIdtPics : List (UInt16 × UInt8) :=
  picInit ++ [(0x21, 0xFC)]

/-- {lit}`pic_acknowledge`. -/
def picAcknowledge (interrupt : Nat) : List (UInt16 × UInt8) :=
  if interrupt < 0x20 ∨ 0x28 + 7 < interrupt then []
  else if interrupt < 0x28 then [(0x20, 0x20)]
  else [(0xA0, 0x20)]

/-! ## Runs -/

/-- The controllers, and the handler that runs with its vector and what it has still to write to
them. -/
structure Irqs where
  pics : Pics
  handler : Option (Nat × List PortAction)

/-- An event at the controllers. -/
inductive IrqEvent where
  | line
  | accept (vector : Nat)
  | access
  | iret

/-- The steps: a line changes, the processor takes an interrupt when no handler runs, a handler
writes to a controller, or it returns. -/
inductive IrqStep : Irqs → IrqEvent → Irqs → Prop
  | line {p p' : Pics} (handler : Option (Nat × List PortAction)) (hmove : p.Move p') :
      IrqStep ⟨p, handler⟩ .line ⟨p', handler⟩
  | accept {p p' : Pics} {v : Nat} (hack : p.interruptAcknowledge = (p', v)) :
      IrqStep ⟨p, none⟩ (.accept v) ⟨p', some (v, outs (picAcknowledge v))⟩
  | access (p : Pics) (v : Nat) (port : UInt16) (value : UInt8) (rest : List PortAction) :
      IrqStep ⟨p, some (v, .out port value :: rest)⟩ .access ⟨p.out port value, some (v, rest)⟩
  | iret (p : Pics) (v : Nat) : IrqStep ⟨p, some (v, [])⟩ .iret ⟨p, none⟩

/-! ## After the initialization -/

/-- The controllers with the given lines of the first one in service. -/
def servingPics (lines : Fin 8 → Bool) : Pics where
  master := {
    requested := fun _ => false
    inService := lines
    masked := fun i => (0xFC : UInt8).toNat.testBit i
    base := 0x20
    cascade := 0x04
    mode := 0x01
    icw1 := 0x11
    phase := .ready }
  slave := {
    requested := fun _ => false
    inService := fun _ => false
    masked := fun i => (0xFF : UInt8).toNat.testBit i
    base := 0x28
    cascade := 0x02
    mode := 0x01
    icw1 := 0x11
    phase := .ready }

variable {p p₀ : Pics} {lines : Fin 8 → Bool}

/-- The settings after {lit}`init_idt`, from whatever the controllers were set to and whatever the
lines do meanwhile. -/
theorem settings_of_boot (h : Pics.device.Run (p₀, outs initIdtPics) (p, [])) :
    p.settings = servingPics fun _ => false := by
  have hfold := h.foldl_out (f := Pics.settings)
    (g := fun port v x => (Pics.out port v x).settings)
    (fun s s' hmove => Pics.Move.settings hmove) (fun port v s => (s.settings_out port v).symm)
  rw [hfold]
  simp only [initIdtPics, picInit, List.cons_append, List.nil_append, List.foldl_cons,
    List.foldl_nil]
  have hinit : (0x11 : UInt8) &&& 0x10 ≠ 0 := by decide
  have hcascade : (0x11 : UInt8) &&& 2 = 0 := by decide
  have hmode : (0x11 : UInt8) &&& 1 ≠ 0 := by decide
  simp only [Pics.out_master_command, Pics.out_slave_command, Pics.out_master_data,
    Pics.out_slave_data, Pic.command_init _ hinit, Pic.data_base, Pic.data_cascade, Pic.data_mode,
    Pic.data_ready, hcascade, hmode, Pics.settings, Pic.settings, ne_eq, not_false_eq_true]
  rfl

/-! ## Serving interrupts -/

/-- No line is in service. -/
abbrev noLines : Fin 8 → Bool :=
  fun _ => false

/-- The vectors that come: the timer, the keyboard, and a request that has gone. -/
def comingVectors : List Nat :=
  [0x20, 0x21, 0x27]

/-- The lines in service by where the handler stands: the one that it serves until it has
acknowledged it, and no other. -/
inductive InService : Option (Nat × List PortAction) → (Fin 8 → Bool) → Prop
  | idle : InService none noLines
  | line {i : Fin 8} (hi : i < 2) :
      InService (some (0x20 + i, [.out 0x20 0x20])) (Function.update noLines i true)
  | spurious : InService (some (0x27, [.out 0x20 0x20])) noLines
  | done {v : Nat} (hv : v ∈ comingVectors) : InService (some (v, [])) noLines

/-- The invariant of the runs. -/
structure Served (s : Irqs) (lines : Fin 8 → Bool) : Prop where
  settings : s.pics.settings = servingPics lines
  handler : InService s.handler lines

section Settings

variable (h : p.settings = servingPics lines)

include h

theorem master_eq : p.master = { (servingPics lines).master with
    requested := p.master.requested } := by
  have hmaster : p.master.settings = (servingPics lines).master := congrArg Pics.master h
  rw [← hmaster]
  rfl

theorem slave_eq : p.slave = { (servingPics lines).slave with
    requested := p.slave.requested } := by
  have hslave : p.slave.settings = (servingPics lines).slave := congrArg Pics.slave h
  rw [← hslave]
  rfl

/-- The lines that can be handed over. -/
theorem view_eligible (i : Fin 8) :
    p.view.Eligible i ↔ p.master.requested i = true ∧ i < 2 ∧ ∀ j ≤ i, lines j = false := by
  have hmask : ∀ i : Fin 8, (0xFC : UInt8).toNat.testBit i = false ↔ i < 2 := by decide
  have hmasked : p.view.masked i = false ↔ i < 2 := by
    rw [Pics.view, master_eq h]
    exact hmask i
  have hservice : p.view.inService = lines := by
    rw [Pics.view, master_eq h]
    rfl
  have hrequested : i < 2 → p.view.requested i = p.master.requested i := by
    intro hi
    rw [Pics.view]
    exact Function.update_of_ne hi.ne _ _
  rw [Pic.Eligible, hmasked, hservice]
  constructor
  · rintro ⟨hreq, hi, hfree⟩
    exact ⟨(hrequested hi) ▸ hreq, hi, hfree⟩
  · rintro ⟨hreq, hi, hfree⟩
    exact ⟨(hrequested hi).trans hreq, hi, hfree⟩

end Settings

/-- The acknowledge cycle for a line of the first controller, other than the one of the second. -/
theorem acknowledge_line {i : Fin 8} (hi : p.view.pending = some i) (hne : i ≠ 2) :
    p.interruptAcknowledge = (⟨p.master.acknowledge i, p.slave⟩, p.master.vector i) := by
  rw [Pics.interruptAcknowledge, hi]
  exact if_neg hne

theorem acknowledge_none (h : p.view.pending = none) :
    p.interruptAcknowledge = (p, p.master.spurious) := by
  rw [Pics.interruptAcknowledge, h]

/-- A line that has been handed over is in service. -/
theorem settings_acknowledge (h : p.settings = servingPics noLines) (i : Fin 8) :
    (⟨p.master.acknowledge i, p.slave⟩ : Pics).settings =
      servingPics (Function.update noLines i true) := by
  have hmode : (1 : UInt8) &&& 2 = 0 := by decide
  have hacknowledged : (p.master.acknowledge i).settings =
      (servingPics (Function.update noLines i true)).master := by
    rw [master_eq h]
    simp only [Pic.acknowledge, Pic.settings, servingPics, hmode, beq_self_eq_true]
  have hslave : p.slave.settings = (servingPics noLines).slave := congrArg Pics.slave h
  rw [Pics.settings, hacknowledged, hslave]
  rfl

/-- The end of an interrupt, when at most one line is in service. -/
theorem settings_end {lines' : Fin 8 → Bool} (h : p.settings = servingPics lines)
    (hend : (servingPics lines).master.endOfInterrupt = (servingPics lines').master) :
    (p.out 0x20 0x20).settings = servingPics lines' := by
  have hmaster : p.master.settings = (servingPics lines).master := congrArg Pics.master h
  have hslave : p.slave.settings = (servingPics lines).slave := congrArg Pics.slave h
  rw [Pics.out_master_command, Pic.command_end, Pics.settings, ← Pic.settings_endOfInterrupt,
    hmaster, hend, hslave]
  rfl

theorem end_line (i : Fin 8) :
    (servingPics (Function.update noLines i true)).master.endOfInterrupt =
      (servingPics noLines).master := by
  rw [Pic.endOfInterrupt_serving (i := i)]
  · simp only [servingPics, Function.update_idem, Pic.mk.injEq, and_true, true_and]
    exact Function.update_eq_self i noLines
  · exact Function.update_self ..
  · exact fun j hj => Function.update_of_ne hj.ne _ _

theorem end_idle : (servingPics noLines).master.endOfInterrupt = (servingPics noLines).master :=
  Pic.endOfInterrupt_idle fun _ => rfl

/-- The vector decides which controller gets the end of the interrupt. -/
theorem picAcknowledge_master (i : Fin 8) : picAcknowledge (0x20 + i) = [(0x20, 0x20)] := by
  rw [picAcknowledge, if_neg (by omega), if_pos (by omega)]

theorem picAcknowledge_slave (i : Fin 8) : picAcknowledge (0x28 + i) = [(0xA0, 0x20)] := by
  rw [picAcknowledge, if_neg (by omega), if_neg (by omega)]

/-- A step keeps the invariant, and only the vectors above come. -/
theorem Served.step {s s' : Irqs} {e : IrqEvent} (h : Served s lines) (hstep : IrqStep s e s') :
    (∃ lines', Served s' lines') ∧ ∀ v, e = .accept v → v ∈ comingVectors := by
  obtain ⟨hsettings, hhandler⟩ := h
  cases hstep with
  | line handler hmove =>
      exact ⟨⟨lines, hmove.settings.trans hsettings, hhandler⟩, fun v hv => by cases hv⟩
  | @accept p p' v hack =>
      cases hhandler
      cases hpending : p.view.pending with
      | none =>
          rw [acknowledge_none hpending, Prod.mk.injEq] at hack
          obtain ⟨rfl, rfl⟩ := hack
          have hvector : p.master.spurious = 0x27 := by
            rw [master_eq hsettings]
            rfl
          rw [hvector]
          refine ⟨⟨noLines, hsettings, .spurious⟩, fun v hv => ?_⟩
          cases hv
          decide
      | some i =>
          obtain ⟨-, hi, -⟩ := (view_eligible hsettings i).1 (Pic.pending_some hpending)
          rw [acknowledge_line hpending hi.ne, Prod.mk.injEq] at hack
          obtain ⟨rfl, rfl⟩ := hack
          have hvector : p.master.vector i = 0x20 + i := by
            rw [master_eq hsettings]
            rfl
          have hdriver : outs (picAcknowledge (0x20 + i)) = [.out 0x20 0x20] := by
            rw [picAcknowledge_master]
            rfl
          have hcoming : ∀ i : Fin 8, i < 2 → 0x20 + i.val ∈ comingVectors := by decide
          rw [hvector, hdriver]
          refine ⟨⟨_, settings_acknowledge hsettings i, .line hi⟩, fun v hv => ?_⟩
          cases hv
          exact hcoming i hi
  | access p v port value rest =>
      refine ⟨?_, fun v hv => by cases hv⟩
      cases hhandler with
      | @line i hi =>
          have hcoming : ∀ i : Fin 8, i < 2 → 0x20 + i.val ∈ comingVectors := by decide
          exact ⟨noLines, settings_end hsettings (end_line i), .done (hcoming i hi)⟩
      | spurious => exact ⟨noLines, settings_end hsettings end_idle, .done (by decide)⟩
  | iret p v =>
      refine ⟨?_, fun v hv => by cases hv⟩
      cases hhandler with
      | done hv => exact ⟨noLines, hsettings, .idle⟩

/-- The runs from boot on, with any behaviour of the lines. -/
theorem served_run (hboot : Pics.device.Run (p₀, outs initIdtPics) (p, []))
    {es : List IrqEvent} {s : Irqs} (h : Trace IrqStep ⟨p, none⟩ es s) :
    (∃ lines, Served s lines) ∧ ∀ v, .accept v ∈ es → v ∈ comingVectors := by
  induction h with
  | start => exact ⟨⟨noLines, settings_of_boot hboot, .idle⟩, fun v hv => by cases hv⟩
  | next hs ha ih =>
      obtain ⟨⟨lines, hserved⟩, hvectors⟩ := ih
      obtain ⟨hserved', hlast⟩ := hserved.step ha
      refine ⟨hserved', fun v hv => ?_⟩
      rcases List.mem_append.1 hv with hv | hv
      · exact hvectors v hv
      · exact hlast v (List.mem_singleton.1 hv).symm

/-- In every run from boot on, with any behaviour of the lines: the processor gets the vectors of
the timer, of the keyboard and of a request that has gone, and no other.  When no handler runs, no
line is in service, so that the next interrupt is the timer's if it is requested and else the
keyboard's. -/
theorem interrupts_served (hboot : Pics.device.Run (p₀, outs initIdtPics) (p, []))
    {es : List IrqEvent} {s : Irqs} (h : Trace IrqStep ⟨p, none⟩ es s) :
    (∀ v, .accept v ∈ es → v ∈ comingVectors) ∧
      (s.handler = none →
        (∀ i, s.pics.master.inService i = false ∧ s.pics.slave.inService i = false) ∧
        s.pics.view.pending =
          if s.pics.master.requested 0 then some 0
          else if s.pics.master.requested 1 then some 1 else none) := by
  obtain ⟨⟨lines, hsettings, hhandler⟩, hvectors⟩ := served_run hboot h
  refine ⟨hvectors, fun hnone => ?_⟩
  rw [hnone] at hhandler
  cases hhandler
  refine ⟨fun i => ⟨?_, ?_⟩, ?_⟩
  · rw [master_eq hsettings]
    rfl
  · rw [slave_eq hsettings]
    rfl
  · have hone : ∀ i : Fin 8, i < 2 → i = 0 ∨ i = 1 := by decide
    split
    · rename_i hzero
      refine Pic.pending_first ((view_eligible hsettings 0).2 ⟨hzero, by decide, fun _ _ => rfl⟩) ?_
      intro j hj
      exact absurd hj (Fin.not_lt_zero j)
    · rename_i hzero
      split
      · rename_i hrequested
        refine Pic.pending_first
          ((view_eligible hsettings 1).2 ⟨hrequested, by decide, fun _ _ => rfl⟩) ?_
        intro j hj heligible
        obtain ⟨hreq, hlow, -⟩ := (view_eligible hsettings j).1 heligible
        rcases hone j hlow with rfl | rfl
        · exact hzero hreq
        · exact absurd hj (lt_irrefl _)
      · rename_i hrequested
        refine Pic.pending_none.2 fun j heligible => ?_
        obtain ⟨hreq, hlow, -⟩ := (view_eligible hsettings j).1 heligible
        rcases hone j hlow with rfl | rfl
        · exact hzero hreq
        · exact hrequested hreq

/-- A tick, from controllers that have just been reset. -/
theorem interrupts_served_tick :
    ∃ p s v, Pics.device.Run (servingPics noLines, outs initIdtPics) (p, []) ∧
      Trace IrqStep ⟨p, none⟩ [.line, .accept v] s ∧ v ∈ comingVectors := by
  obtain ⟨p, hboot⟩ := Device.Run.exists_outs Pics.device initIdtPics (servingPics noLines)
  have htrace := (Trace.start.next (IrqStep.line none (Pics.Move.master p 0 true))).next
    (IrqStep.accept rfl)
  exact ⟨p, _, _, hboot, htrace, (interrupts_served hboot htrace).1 _ (List.mem_append_right _
    List.mem_cons_self)⟩

/-! ## What an acknowledgement takes back -/

/-- The settings of {lit}`pic_init`, with any masks and any lines in service. -/
structure Initialized (p : Pics) : Prop where
  master : p.master.base = 0x20 ∧ p.master.mode = 1
  slave : p.slave.base = 0x28 ∧ p.slave.mode = 1

/-- A single write, whatever the lines do before and after it. -/
theorem settings_of_write {p p' : Pics} {port : UInt16} {v : UInt8}
    (h : Pics.device.Run (p, outs [(port, v)]) (p', [])) :
    p'.settings = (p.out port v).settings := by
  have hfold := h.foldl_out (f := Pics.settings)
    (g := fun port v x => (Pics.out port v x).settings)
    (fun s s' hmove => Pics.Move.settings hmove) (fun port v s => (s.settings_out port v).symm)
  rw [hfold]
  exact p.settings_out port v

/-- The lines in service after a single write. -/
theorem inService_of_write {p p' : Pics} {port : UInt16} {v : UInt8}
    (h : Pics.device.Run (p, outs [(port, v)]) (p', [])) :
    p'.master.inService = (p.out port v).master.inService ∧
      p'.slave.inService = (p.out port v).slave.inService := by
  have hsettings := settings_of_write h
  have hmaster : p'.settings.master.inService = (p.out port v).settings.master.inService := by
    rw [hsettings]
  have hslave : p'.settings.slave.inService = (p.out port v).settings.slave.inService := by
    rw [hsettings]
  exact ⟨hmaster, hslave⟩

/-- What holds of the lines in service after a single write. -/
theorem write_iff {p q : Pics} {port : UInt16} {v : UInt8} :
    (∀ p', Pics.device.Run (p, outs [(port, v)]) (p', []) →
      p'.master.inService = q.master.inService ∧ p'.slave.inService = q.slave.inService) ↔
      (p.out port v).master.inService = q.master.inService ∧
        (p.out port v).slave.inService = q.slave.inService := by
  constructor
  · exact fun hall => hall _ (.single (.out _ _ _ _))
  · intro hwrite p' hrun
    rw [(inService_of_write hrun).1, (inService_of_write hrun).2]
    exact hwrite

/-- The end of an interrupt changes something exactly when a line is in service. -/
theorem endOfInterrupt_eq_iff (p : Pic) :
    p.endOfInterrupt.inService = p.inService ↔ ∀ i, p.inService i = false := by
  constructor
  · intro hsame
    refine Fin.find?_eq_none_iff.1 ?_
    change p.serving = none
    cases hserving : p.serving with
    | none => rfl
    | some i =>
        have hi : p.inService i = true := (Fin.find?_eq_some_iff.1 hserving).1
        rw [Pic.endOfInterrupt, hserving] at hsame
        have hcleared : Function.update p.inService i false i = p.inService i :=
          congrFun hsame i
        rw [Function.update_self, hi] at hcleared
        exact Bool.noConfusion hcleared
  · intro hidle
    rw [Pic.endOfInterrupt_idle hidle]

/-- The acknowledge cycle for the line of the second controller. -/
theorem Initialized.acknowledge_cascade {p p' : Pics} {v : Nat} (h : Initialized p)
    (hpending : p.view.pending = some 2) (hack : p.interruptAcknowledge = (p', v)) :
    p'.master = p.master.acknowledge 2 ∧ ∃ i : Fin 8, v = 0x28 + i := by
  have hvector : ∀ j : Fin 8, p.slave.vector j = 0x28 + j := by
    intro j
    rw [Pic.vector, h.slave.1]
    rfl
  rw [Pics.interruptAcknowledge, hpending] at hack
  simp only [if_true] at hack
  cases hslave : p.slave.pending with
  | none =>
      rw [hslave, Prod.mk.injEq, Pic.spurious, hvector] at hack
      obtain ⟨rfl, rfl⟩ := hack
      exact ⟨rfl, 7, rfl⟩
  | some j =>
      rw [hslave, Prod.mk.injEq, hvector] at hack
      obtain ⟨rfl, rfl⟩ := hack
      exact ⟨rfl, j, rfl⟩

/-- The line of the second controller stays in service in the first one. -/
theorem Initialized.cascade_stays {p p' p'' : Pics} {v : Nat} (h : Initialized p)
    (hpending : p.view.pending = some 2) (hack : p.interruptAcknowledge = (p', v))
    (hrun : Pics.device.Run (p', outs (picAcknowledge v)) (p'', [])) :
    p''.master.inService = Function.update p.master.inService 2 true := by
  have hnormal : (1 : UInt8) &&& 2 = 0 := by decide
  obtain ⟨hmaster, i, rfl⟩ := h.acknowledge_cascade hpending hack
  rw [picAcknowledge_slave] at hrun
  rw [(inService_of_write hrun).1, Pics.out_slave_command, hmaster]
  simp only [Pic.acknowledge, h.master.2, hnormal, beq_self_eq_true]

/-- {lit}`pic_acknowledge` for the vector of an interrupt takes back what the interrupt changed in
the two controllers, whatever the lines do meanwhile, if and only if the interrupt came through a
line of the first controller, or the request had gone and the first controller had no line in
service.  After an interrupt of the second controller its line stays in service in the first. -/
theorem acknowledge_restores_iff {p p' : Pics} {v : Nat} (h : Initialized p)
    (hack : p.interruptAcknowledge = (p', v)) :
    ((∀ p'', Pics.device.Run (p', outs (picAcknowledge v)) (p'', []) →
        p''.master.inService = p.master.inService ∧ p''.slave.inService = p.slave.inService) ↔
      (∃ i, i ≠ 2 ∧ p.view.pending = some i) ∨
        (p.view.pending = none ∧ ∀ i, p.master.inService i = false)) ∧
      (p.view.pending = some 2 →
        ∀ p'', Pics.device.Run (p', outs (picAcknowledge v)) (p'', []) →
          p''.master.inService = Function.update p.master.inService 2 true) := by
  refine ⟨?_, fun hpending p'' hrun => h.cascade_stays hpending hack hrun⟩
  have hnormal : (1 : UInt8) &&& 2 = 0 := by decide
  have hvector : ∀ i : Fin 8, p.master.vector i = 0x20 + i := by
    intro i
    rw [Pic.vector, h.master.1]
    rfl
  cases hpending : p.view.pending with
  | none =>
      rw [acknowledge_none hpending, Prod.mk.injEq, Pic.spurious, hvector] at hack
      obtain ⟨rfl, rfl⟩ := hack
      rw [picAcknowledge_master, write_iff, Pics.out_master_command, Pic.command_end,
        and_iff_left rfl, endOfInterrupt_eq_iff]
      simp
  | some i =>
      have heligible := Pic.pending_some hpending
      by_cases hcascade : i = 2
      · subst hcascade
        have hfree : p.master.inService 2 = false := heligible.2.2 2 le_rfl
        refine iff_of_false (fun hall => ?_) (by simp)
        obtain ⟨p'', hrun⟩ := Device.Run.exists_outs Pics.device (picAcknowledge v) p'
        have hstays := h.cascade_stays hpending hack hrun
        rw [(hall p'' hrun).1] at hstays
        have htwo := congrFun hstays 2
        rw [hfree, Function.update_self] at htwo
        exact Bool.noConfusion htwo
      · rw [acknowledge_line hpending hcascade, Prod.mk.injEq, hvector] at hack
        obtain ⟨rfl, rfl⟩ := hack
        have hline : p.master.Eligible i := by
          refine ⟨?_, heligible.2.1, heligible.2.2⟩
          have hrequested : Function.update p.master.requested 2 p.slave.pending.isSome i = true :=
            heligible.1
          rw [Function.update_of_ne hcascade] at hrequested
          exact hrequested
        rw [picAcknowledge_master, write_iff, Pics.out_master_command, Pic.command_end,
          Pic.endOfInterrupt_acknowledge hline (by rw [h.master.2, hnormal])]
        exact iff_of_true ⟨rfl, rfl⟩ (.inl ⟨i, hcascade, rfl⟩)

/-- The controllers with all lines open, and line 4 of the second one requested. -/
def slaveRequest : Pics where
  master := { (servingPics noLines).master with masked := noLines }
  slave := { (servingPics noLines).slave with
    masked := noLines
    requested := fun i => i.val == 4 }

/-- An interrupt of the second controller is not taken back: line 2 stays in service. -/
theorem acknowledge_restores_iff_slave :
    (¬ ∀ p'', Pics.device.Run (slaveRequest.interruptAcknowledge.1,
        outs (picAcknowledge slaveRequest.interruptAcknowledge.2)) (p'', []) →
      p''.master.inService = slaveRequest.master.inService ∧
        p''.slave.inService = slaveRequest.slave.inService) ∧
      ∀ p'', Pics.device.Run (slaveRequest.interruptAcknowledge.1,
          outs (picAcknowledge slaveRequest.interruptAcknowledge.2)) (p'', []) →
        p''.master.inService 2 = true := by
  have hpending : slaveRequest.view.pending = some 2 := by decide
  have hack : slaveRequest.interruptAcknowledge =
      (slaveRequest.interruptAcknowledge.1, slaveRequest.interruptAcknowledge.2) := rfl
  obtain ⟨hiff, hstays⟩ := acknowledge_restores_iff ⟨⟨rfl, rfl⟩, rfl, rfl⟩ hack
  refine ⟨?_, fun p'' hrun => ?_⟩
  · rw [hiff, hpending]
    simp
  · rw [hstays hpending p'' hrun, Function.update_self]

end SoKernel
