import SoKernel.Kernel.Events

/-!
# Returns to user mode

The kernel returns from a trap with the image of the interrupted process, with one that was
saved at an earlier trap, or with one that it has made up from a control block.  All of them
lead to ring 3 with interrupts on and without access to the ports, provided that the traps
themselves come from there.

Main results:

- Theorem {lit}`Confined.trap`: a trap returns to user mode, and only such images are saved.
- Theorem {lit}`returns_to_user_mode`: every trap of a run returns to user mode.
-/

namespace SoKernel

/-- A register image of user mode: the selectors of ring 3, interrupts on, and I/O privilege
level 0. -/
structure ProcessContext.UserMode (c : ProcessContext) : Prop where
  cs : c.cs = 0x1B
  ss : c.userSs = 0x23
  flags : c.eflags &&& 0x3200 = 0x200

/-- The trap of an event comes from user mode. -/
def Event.FromUserMode : Event → Prop
  | .trap t _ => t.image.UserMode
  | .write _ _ => True

/-- The trap of an event returns to user mode. -/
def Event.ToUserMode : Event → Prop
  | .trap _ out => out.UserMode
  | .write _ _ => True

namespace Kernel

/-- The image that a process in the ready queue goes on with is one of user mode. -/
def StartsInUserMode (b : Pcb) : Prop :=
  if b.context.cs = 0 then (schedulerInitContextFromPcb b).context.UserMode else b.context.UserMode

/-- All processes in the ready queue go on in user mode. -/
def Confined (k : Kernel) : Prop :=
  ∀ p ∈ k.sched.ready.toList, StartsInUserMode (k.pcbs p)

section Privilege

variable {L : Layout} {R : Nat → Prop} {safe : Prop} {B : BootInfo} {k k₀ k' : Kernel}
  {c out : ProcessContext}

/-! ## Images -/

/-- Setting the interrupt flag leaves an image of user mode one. -/
theorem userMode_setFlag (h : c.UserMode) :
    ({ c with eflags := c.eflags ||| 0x200 } : ProcessContext).UserMode := by
  refine ⟨h.cs, h.ss, ?_⟩
  change (c.eflags ||| 0x200) &&& 0x3200 = 0x200
  rw [Nat.and_or_distrib_right, h.flags]
  rfl

/-- A saved image of user mode is one to go on with. -/
theorem startsInUserMode_of_context {b : Pcb} (h : b.context.UserMode) : StartsInUserMode b := by
  have hcs : b.context.cs ≠ 0 := by
    rw [h.cs]
    decide
  rw [StartsInUserMode, if_neg hcs]
  exact h

/-- A process is dispatched with the image that it has to go on with. -/
theorem StartsInUserMode.incoming {b : Pcb} (h : StartsInUserMode b) (now : Nat) :
    ({ (incoming b now).context with
      eflags := (Kernel.incoming b now).context.eflags ||| 0x200 } : ProcessContext).UserMode := by
  refine userMode_setFlag ?_
  unfold StartsInUserMode at h
  unfold Kernel.incoming
  split at h
  · rename_i hcs
    rw [if_pos hcs]
    exact h
  · rename_i hcs
    rw [if_neg hcs]
    exact h

theorem Confined.congr (h : Confined k) (hready : k'.sched.ready.toList = k.sched.ready.toList)
    (hpcbs : ∀ p ∈ k.sched.ready.toList, k'.pcbs p = k.pcbs p) : Confined k' := by
  intro p hp
  rw [hready] at hp
  rw [hpcbs p hp]
  exact h p hp

/-! ## Traps -/

/-- A scheduling call on an image of user mode ends with one. -/
theorem Confined.schedule (h : Confined k) (hnodup : k.members.Nodup) (hz : 0 ∉ k.members)
    (hc : c.UserMode) {requeue : Bool} {id : StatContext} {code : Int}
    (hrun : k.schedulerScheduleFromContext c requeue id = (code, k', out)) :
    out.UserMode ∧ Confined k' := by
  have hne : ∀ p ∈ k.sched.ready.toList, p ≠ k.sched.currentPcb := fun p hp heq =>
    (List.nodup_cons.1 hnodup).1 (heq ▸ hp)
  -- The process that is interrupted is saved with the image of the trap.
  have hsaved : ∀ p ∈ k.candidates requeue, StartsInUserMode ((k.saved c requeue).pcbs p) := by
    intro p hp
    by_cases hpc : p = k.sched.currentPcb
    · subst hpc
      have hblock : (k.saved c requeue).pcbs k.sched.currentPcb =
          outgoing k.current c requeue k.pitTicks := Function.update_self ..
      rw [hblock]
      refine startsInUserMode_of_context ?_
      rw [(outgoing_fields _ _ _ _).2.2.2.2]
      exact hc
    · have hblock : (k.saved c requeue).pcbs p = k.pcbs p := Function.update_of_ne hpc _ _
      rw [hblock]
      rcases List.mem_append.1 hp with hp | hp
      · exact h p hp
      · cases requeue with
        | false => cases hp
        | true => exact absurd (List.mem_singleton.1 hp) hpc
  have hcases := schedule_cases c requeue id hz
  rw [hrun] at hcases
  cases hcases with
  | sliceLeft hrr hreq hleft => exact ⟨hc, h⟩
  | refused hreq hslice hfull =>
      refine ⟨hc, h.congr rfl fun p hp => ?_⟩
      rw [stayed_pcbs, if_neg (hne p hp)]
  | alone hreq hempty =>
      refine ⟨hc, h.congr rfl fun p hp => ?_⟩
      rw [stayed_pcbs, if_neg (hne p hp)]
  | @switch next ready hslice hroom hperm hfifo =>
      have hnodup' : (next :: ready.toList).Nodup := by
        refine hperm.nodup_iff.1 ?_
        cases requeue with
        | false =>
            rw [candidates, if_neg Bool.false_ne_true, List.append_nil]
            exact (List.nodup_cons.1 hnodup).2
        | true => exact (List.perm_append_singleton _ _).nodup_iff.2 hnodup
      refine ⟨(hsaved next (hperm.mem_iff.2 List.mem_cons_self)).incoming _, fun p hp => ?_⟩
      have hpn : p ≠ next := fun heq => (List.nodup_cons.1 hnodup').1 (heq ▸ hp)
      have hblock : (({ k.saved c requeue with
          sched := { (k.saved c requeue).sched with ready := ready } } : Kernel).switched
            k.sched.currentPcb next id).pcbs p = (k.saved c requeue).pcbs p :=
        Function.update_of_ne hpn _ _
      rw [hblock]
      exact hsaved p (hperm.mem_iff.2 (List.mem_cons_of_mem _ hp))

/-- A trap from user mode returns to user mode. -/
theorem Confined.trap (h : Confined k) (hinv : Inv L R safe k) {t : Trap} (hfrom : t.image.UserMode)
    (ht : k.trap L t = some (k', out)) : out.UserMode ∧ Confined k' := by
  have hnodup := hinv.members_nodup
  have hz := hinv.zero_notMem
  have hne : ∀ p ∈ k.sched.ready.toList, p ≠ k.sched.currentPcb := fun p hp heq =>
    (List.nodup_cons.1 hnodup).1 (heq ▸ hp)
  have hready : ∀ p ∈ k.sched.ready.toList, p ∈ k.holders := fun p hp =>
    mem_holders (List.mem_cons_of_mem _ hp)
  obtain ⟨-, hserved⟩ := hinv.served ht
  cases hserved with
  | quiet hquiet => exact ⟨hfrom, h⟩
  | requeued call hrun =>
      cases call with
      | timer henabled hring => exact Confined.schedule (k := k.tick) h hnodup hz hfrom hrun
      | yield hring hnumber => exact h.schedule hnodup hz hfrom hrun
  | kept hring hnumber => exact ⟨⟨hfrom.cs, hfrom.ss, hfrom.flags⟩, h⟩
  | gaveUp hring hnumber aside counter log =>
      refine ⟨⟨hfrom.cs, hfrom.ss, hfrom.flags⟩, h.congr ?_ fun p hp => aside.pcbs p (hready p hp)⟩
      rw [aside.sched]
  | executed hring hnumber executed log =>
      refine ⟨⟨rfl, rfl, (userMode_setFlag hfrom).flags⟩, h.congr ?_ fun p hp => ?_⟩
      · rw [executed.sched]
      · exact executed.others p (hne p hp)
  | @forked frame kernelByte child d base k' hring hnumber forked log =>
      refine ⟨⟨hfrom.cs, hfrom.ss, hfrom.flags⟩, fun p hp => ?_⟩
      rw [forked.ready] at hp
      rcases List.mem_append.1 hp with hp | hp
      · rw [forked.others p (hready p hp)]
        exact h p hp
      · rw [List.mem_singleton.1 hp, forked.pcb]
        exact startsInUserMode_of_context ⟨hfrom.cs, hfrom.ss, hfrom.flags⟩
  | @left frame kernelByte code k₂ out hring hnumber hrun =>
      have hmarked : Confined k.markTerminated := by
        refine h.congr rfl fun p hp => ?_
        rw [markTerminated_pcbs, if_neg (hne p hp)]
      obtain ⟨hout, hafter⟩ := hmarked.schedule hnodup hz hfrom hrun
      refine ⟨hout, ?_⟩
      split
      · exact hafter
      · exact hafter

/-! ## Runs -/

/-- The processes that boot has enqueued have the control blocks that {lit}`create_pcb` makes. -/
def MadeByBoot (k : Kernel) : Prop :=
  ∀ p ∈ k.booted, ∃ pid d base, k.pcbs p = { madePcb pid d base with esp := 0xBFFFFFFB }

/-- One pass of the loop over the modules. -/
theorem MadeByBoot.pass {n first : Nat} (hm : MadeByBoot k) (h : Booting L B n first k)
    {mod : MultibootModule} {r : Nat × Kernel} (hrun : bootModule L (first, k) mod = some r) :
    MadeByBoot r.2 := by
  have hspec := createPcbGrubModules_spec h.holding mod.modStart mod.modEnd
  unfold bootModule at hrun
  generalize k.createPcbGrubModules L mod.modStart mod.modEnd = made at hspec hrun
  -- The processes made before keep their control blocks.
  have hkept : ∀ k' : Kernel, Beside k k' → MadeByBoot k' := by
    intro k' hb p hp
    have hv := h.views hb
    rw [hv.booted] at hp
    rw [hv.pcb p (List.mem_append_left _ hp)]
    exact hm p hp
  cases hspec with
  | fault high => cases hrun
  | failed hold beside short =>
      simp only [if_true, Option.some.injEq] at hrun
      rw [← hrun]
      exact hkept _ beside
  | @made k' m₀ pcb d base x made =>
      have hjoin : ∀ p ∈ k'.booted ++ [pcb], ∃ pid d base,
          k'.pcbs p = { madePcb pid d base with esp := 0xBFFFFFFB } := by
        intro p hp
        rcases List.mem_append.1 hp with hp | hp
        · exact hkept k' made.beside p hp
        · rw [List.mem_singleton.1 hp]
          exact ⟨_, _, _, made.pcb_eq⟩
      simp only [if_neg made.pcb_ne] at hrun
      by_cases hfirst : first = 0
      · simp only [if_pos hfirst, Option.some.injEq] at hrun
        rw [← hrun]
        exact hjoin
      · simp only [if_neg hfirst] at hrun
        have hsame : k'.setPcb pcb { k'.pcbs pcb with state := .ready } = k' := by
          have hstate : ({ k'.pcbs pcb with state := .ready } : Pcb) = k'.pcbs pcb := by
            rw [made.pcb_eq]
            rfl
          rw [hstate, setPcb, Function.update_eq_self]
        rw [hsame] at hrun
        rcases schedulerEnqueueReady_cases k' made.pcb_ne with
          ⟨-, ready, -, henq⟩ | ⟨-, henq⟩
        · simp only [henq, Option.some.injEq] at hrun
          rw [← hrun]
          exact hjoin
        · simp only [henq, Option.some.injEq] at hrun
          rw [← hrun]
          exact hkept k' made.beside

theorem MadeByBoot.loop {mods : List MultibootModule} {n first : Nat} (hm : MadeByBoot k)
    (h : Booting L B n first k) (hn : n + mods.length ≤ B.mods.length) {r : Nat × Kernel}
    (hrun : mods.foldlM (bootModule L) (first, k) = some r) : MadeByBoot r.2 := by
  induction mods generalizing n first k with
  | nil =>
      rw [List.foldlM_nil] at hrun
      cases hrun
      exact hm
  | cons mod rest ih =>
      rw [List.foldlM_cons] at hrun
      cases hpass : bootModule L (first, k) mod with
      | none =>
          rw [hpass] at hrun
          cases hrun
      | some s =>
          rw [hpass] at hrun
          rw [List.length_cons] at hn
          exact ih (hm.pass h hpass) (h.pass (by omega) hpass) (by omega) hrun

/-- The processes of boot have the control blocks that {lit}`create_pcb` makes, up to the state
and the tick of the dispatch. -/
theorem members_madeByBoot (hboot : kmain L B = some k₀) :
    ∀ p ∈ k₀.members, ∃ pid d base, k₀.pcbs p = { madePcb pid d base with
      esp := 0xBFFFFFFB
      state := (k₀.pcbs p).state
      lastDispatchTick := (k₀.pcbs p).lastDispatchTick } := by
  unfold kmain at hboot
  cases hloop : B.mods.foldlM (bootModule L) (0, bootKernel L B) with
  | none =>
      rw [hloop] at hboot
      cases hboot
  | some r =>
      rw [hloop] at hboot
      obtain ⟨first, k⟩ := r
      simp only at hboot
      split at hboot
      · cases hboot
      · rename_i hfirst
        rw [Option.some.injEq, runUserModeModule_eq k hfirst] at hboot
        have hstart : MadeByBoot (bootKernel L B) := by
          rintro p ⟨⟩
        have hmade := hstart.loop (booting_start L B) (Nat.zero_add _).le hloop
        have hqueue := (booting_all hloop).queue
        simp only [if_neg hfirst] at hqueue
        intro p hp
        have hp' : p ∈ k.booted := by
          rw [hqueue]
          rw [← hboot] at hp
          exact hp
        obtain ⟨pid, d, base, hpcb⟩ := hmade p hp'
        refine ⟨pid, d, base, ?_⟩
        rw [← hboot]
        by_cases hpf : p = first
        · subst hpf
          simp only [Function.update_self]
          rw [hpcb]
        · simp only [Function.update_of_ne hpf]
          rw [hpcb]

/-- The processes of boot start in user mode. -/
theorem confined_start (hboot : kmain L B = some k₀) : Confined k₀ := by
  intro p hp
  obtain ⟨pid, d, base, hpcb⟩ := members_madeByBoot hboot p (List.mem_cons_of_mem _ hp)
  rw [hpcb]
  unfold StartsInUserMode
  split
  · exact ⟨rfl, rfl, (by decide : (0x200 &&& 0x3200 : Nat) = 0x200)⟩
  · rename_i hcs
    exact absurd rfl hcs

/-- A run whose traps come from user mode keeps the processes there. -/
theorem Confined.run (hboot : kmain L B = some k₀) {es : List Event} (h : Runs L k₀ es k)
    (hfrom : ∀ e ∈ es, e.FromUserMode) : Confined k ∧
      Inv L (Reserved L B.mods) (k₀.store.mem.pfa.exhausted = false) k ∧
      ∀ e ∈ es, e.ToUserMode := by
  induction h with
  | start => exact ⟨confined_start hboot, kmain_inv hboot, fun e he => by cases he⟩
  | @next es e k k' hs ha ih =>
      obtain ⟨hbefore, hlast⟩ := Trace.ok_append hfrom
      obtain ⟨hconfined, hinv, hto⟩ := ih hbefore
      have hnext : e.ToUserMode ∧ Confined k' := by
        cases ha with
        | trap ht => exact hconfined.trap hinv hlast ht
        | write hsafe hw =>
            obtain ⟨i, j, f, hpage⟩ := hinv.writePage hsafe hw
            rw [hpage.kernel]
            exact ⟨trivial, hconfined⟩
      refine ⟨hnext.2, hinv.step ha, fun a ha => ?_⟩
      rcases List.mem_append.1 ha with ha | ha
      · exact hto a ha
      · rw [List.mem_singleton.1 ha]
        exact hnext.1

/-- Along every run whose traps come from user mode, every trap returns to user mode. -/
theorem returns_to_user_mode (hboot : kmain L B = some k₀) {es : List Event}
    (h : Runs L k₀ es k) (hfrom : ∀ e ∈ es, e.FromUserMode) : ∀ e ∈ es, e.ToUserMode :=
  (Confined.run hboot h hfrom).2.2

/-- The traps of the sample run come from user mode. -/
theorem sampleEvents_fromUserMode (out₁ out₃ out₄ out₅ : ProcessContext) :
    ∀ e ∈ sampleEvents out₁ out₃ out₄ out₅, e.FromUserMode := by
  intro e he
  simp only [sampleEvents, List.mem_cons, List.not_mem_nil, or_false] at he
  rcases he with rfl | rfl | rfl | rfl | rfl
  · exact ⟨rfl, rfl, rfl⟩
  · trivial
  · exact ⟨rfl, rfl, rfl⟩
  · exact ⟨rfl, rfl, rfl⟩
  · exact ⟨rfl, rfl, rfl⟩

theorem returns_to_user_mode_sample_run :
    ∃ k₀ k₁ k₂ k₃ k₄ k₅ out₁ out₃ out₄ out₅ p q child,
      kmain sampleLayout (sampleBoot 2 (by decide) .fcfs) = some k₀ ∧
      SampleRun k₀ k₁ k₂ k₃ k₄ k₅ out₁ out₃ out₄ out₅ p q child ∧
      ∀ e ∈ sampleEvents out₁ out₃ out₄ out₅, e.ToUserMode := by
  obtain ⟨k₀, k₁, k₂, k₃, k₄, k₅, out₁, out₃, out₄, out₅, p, q, child, hboot, hplenty, hrun⟩ :=
    sampleRun_exists
  exact ⟨k₀, k₁, k₂, k₃, k₄, k₅, out₁, out₃, out₄, out₅, p, q, child, hboot, hrun,
    returns_to_user_mode hboot (hrun.runs hplenty) (sampleEvents_fromUserMode out₁ out₃ out₄ out₅)⟩

end Privilege

end Kernel

end SoKernel
