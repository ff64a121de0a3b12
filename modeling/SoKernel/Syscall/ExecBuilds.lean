import SoKernel.Process.AllOrNothing
import SoKernel.Syscall.ExecImages

/-!
# Exec builds the image of the module

A successful exec gives its caller the bytes of the module, a cleared stack page and
nothing else, on frames that were free.  It gives the frames of the old address space back.
One kind of entry does not go back: boot goes on when {lit}`pfa_alloc` fails and enters
frame 0, which the allocator does not manage.

Main results:

- Theorem {lit}`exec_builds_image_iff`: what a successful exec leaves behind, in every
  reachable state.
- Theorem {lit}`exec_keeps_frame_zero`: a run in which the caller's old space has frame 0.
-/

namespace SoKernel

namespace Kernel

section ExecBuilds

variable {L : Layout} {R : Nat → Prop} {safe : Prop} {B : BootInfo} {k k₀ k' : Kernel}

/-- What the caller of an exec of the range finds when the call has returned 0. -/
structure ExecBuilt (k : Kernel) (modStart modEnd : Nat) (k' : Kernel) (frame' : SyscallFrame) :
    Prop where
  bytes : ∀ v, v < modEnd - modStart →
    k'.store.mem.userByte k'.current.pdt v = some (k.store.mem.phys (modStart + v))
  tail : ∀ v, modEnd - modStart ≤ v → v < 4096 * Memory.imagePages (modEnd - modStart) →
    k'.store.mem.userByte k'.current.pdt v = some 0
  stack : ∀ v, 0xBFFFF000 ≤ v → v < 0xC0000000 →
    k'.store.mem.userByte k'.current.pdt v = some 0
  others : ∀ v, 4096 * Memory.imagePages (modEnd - modStart) ≤ v → v < 0xBFFFF000 →
    k'.store.mem.slots (k'.dirOf k'.sched.currentPcb) (.page (v / 4096 / 1024) (v / 4096 % 1024)) =
      none
  fresh : ∀ s f, k'.store.mem.slots (k'.dirOf k'.sched.currentPcb) s = some f →
    k.store.mem.pfa.Free f
  freed : ∀ s f, k.store.mem.slots (k.dirOf k.sched.currentPcb) s = some f →
    k'.store.mem.pfa.used f = false
  frame : frame'.eip = 0 ∧ frame'.userEsp = 0xBFFFFFF8 ∧ frame'.cs = 0x1B ∧ frame'.userSs = 0x23 ∧
    frame'.eflags.testBit 9 = true
  pcb : k'.current.eip = 0 ∧ k'.current.esp = 0xBFFFFFF8 ∧ k'.current.cs = 0x1B ∧
    k'.current.ss = 0x23 ∧ k'.current.eflags.testBit 9 = true

/-- Frame 0 is in use in every state that keeps what boot reserved. -/
theorem Inv.zero_used (h : Inv L (Reserved L B.mods) safe k) :
    k.store.mem.pfa.used 0 = true := by
  refine (h.holding.store.spaces.kept 0 (.inl ((used_bootPfa L B.mods 0).2 (.inl ?_)))).1
  have hstart := bootPfa_start_pos L B.mods
  omega

/-- The frames that an exec gives back. -/
theorem Executed.freed_iff (h : Inv L (Reserved L B.mods) safe k) {a b d : Nat}
    (he : Executed k a b k' d) :
    (∀ s f, k.store.mem.slots (k.dirOf k.sched.currentPcb) s = some f →
        k'.store.mem.pfa.used f = false) ↔
      ∀ s, k.store.mem.slots (k.dirOf k.sched.currentPcb) s ≠ some 0 := by
  constructor
  · intro hfreed s hs
    have hused : k'.store.mem.pfa.used 0 = true :=
      (he.freed 0).2 (.inl ⟨h.zero_used, fun howns => howns.1 rfl⟩)
    rw [hfreed s 0 hs] at hused
    cases hused
  · intro hfilled s f hs
    have howns : Owns (k.store.mem.slots (k.dirOf k.sched.currentPcb)) f :=
      ⟨fun hf => hfilled s (hf ▸ hs), s, hs⟩
    refine Bool.eq_false_iff.2 fun hused => ?_
    rcases (he.freed f).1 hused with ⟨-, hnot⟩ | hnew
    · exact hnot howns
    · -- A frame of the new space was free, so it was not a frame of the old one.
      exact h.holding.store.spaces.not_free h.loaded.2 (.inl howns) (he.frames f hnew)

/-- What an exec that succeeds leaves behind. -/
theorem Executed.built_iff (h : Inv L (Reserved L B.mods) safe k) {a b d : Nat}
    (he : Executed k a b k' d) (hregion : Memory.Region k.store.mem a (b - a))
    (frame : SyscallFrame) :
    ExecBuilt k a b k' (execFrame frame ⟨4096 * d, 0, 0xBFFFFFF8⟩) ↔
      ∀ s, k.store.mem.slots (k.dirOf k.sched.currentPcb) s ≠ some 0 := by
  rw [← he.freed_iff h]
  refine ⟨ExecBuilt.freed, fun hfreed => ?_⟩
  have hpdt : k'.current.pdt = 4096 * d := by
    rw [he.pcb]
    rfl
  have hdir : k'.dirOf k'.sched.currentPcb = d := by
    change k'.current.pdt / 4096 = d
    rw [hpdt, Nat.mul_div_cancel_left _ (by norm_num)]
  have hbit : ∀ n : Nat, (n ||| 0x200).testBit 9 = true := fun n => by
    rw [Nat.testBit_or, show Nat.testBit 0x200 9 = true by decide, Bool.or_true]
  refine ⟨fun v hv => ?_, fun v hlo hhi => ?_, fun v hlo hhi => ?_, fun v hlo hhi => ?_,
    fun s f hs => ?_, hfreed, ⟨rfl, rfl, rfl, rfl, hbit _⟩, ?_⟩
  · rw [hpdt]
    exact he.image.hasProgram hregion v hv
  · rw [hpdt, he.image.userByte hregion hhi, if_neg (by omega)]
  · rw [hpdt]
    exact he.image.userByte_stack hlo hhi
  · have hnone := he.image.others (v / 4096 / 1024) (v / 4096 % 1024) (by omega) (by omega)
      (by omega) (by omega)
    rw [hdir, Memory.slots_page _ _ (by omega) (by omega), entryFrame, if_neg hnone]
  · rw [hdir] at hs
    exact he.frames f ⟨fun hf => he.filled s (hf ▸ hs), s, hs⟩
  · rw [he.pcb]
    exact ⟨rfl, rfl, rfl, rfl, hbit _⟩

/-- An exec that returns 0 has exchanged the address space of its caller. -/
theorem Inv.sysExec_executed (h : Inv L R safe k) {kernelByte : Nat → Option UInt8}
    {frame frame' : SyscallFrame} {path : List UInt8} {modStart modEnd : Nat}
    (hpath : copyUserString (k.store.mem.readVirtual kernelByte) frame.ebx execPathMax =
      some (some path))
    (hfound : moduleLoaderFindModuleByPath k.modules path = some (modStart, modEnd))
    (hrun : k.sysExec kernelByte frame = some (0, k', frame')) :
    ∃ d, Executed k modStart modEnd k' d ∧ frame' = execFrame frame ⟨4096 * d, 0, 0xBFFFFFF8⟩ := by
  have hspec := execModule_spec h frame modStart modEnd
  rw [sysExec_eq hpath hfound, Option.some.injEq] at hrun
  rw [hrun] at hspec
  cases hspec with
  | @done k' d inv executed room => exact ⟨d, executed, rfl⟩

/-- A successful exec gives the caller the image of the module, on frames that were free,
and gives every frame of the old space back exactly when none of them is frame 0. -/
theorem exec_builds_image_iff (hboot : kmain L B = some k₀) (hk : Reachable L k₀ k)
    {kernelByte : Nat → Option UInt8} {frame frame' : SyscallFrame} {path : List UInt8}
    {modStart modEnd : Nat}
    (hpath : copyUserString (k.store.mem.readVirtual kernelByte) frame.ebx execPathMax =
      some (some path))
    (hfound : moduleLoaderFindModuleByPath k.modules path = some (modStart, modEnd))
    (hreserved : ∀ x, modStart ≤ x → x < modEnd → k.store.mem.pfa.used (x / 4096) = true)
    (hrun : k.sysExec kernelByte frame = some (0, k', frame')) :
    ExecBuilt k modStart modEnd k' frame' ↔
      ∀ s, k.store.mem.slots (k.dirOf k.sched.currentPcb) s ≠ some 0 := by
  have hinv := (kmain_inv hboot).reachable hk
  obtain ⟨d, hexecuted, rfl⟩ := hinv.sysExec_executed hpath hfound hrun
  have hbound : modStart + (modEnd - modStart) ≤ 2 ^ 32 := by
    have hmodules := (kmain_inv hboot).reachable_modules hk
    rw [hmodules, (kmain_started hboot).modules] at hfound
    obtain ⟨mod, hmod, rfl, rfl⟩ := moduleLoaderFind_mem hfound
    have hhi := B.mods_hi mod hmod
    omega
  refine hexecuted.built_iff hinv ⟨hbound, fun x hlo hhi hfree => ?_⟩ frame
  have hused := hreserved x hlo (by omega)
  rw [hfree.2.2] at hused
  cases hused

/-- An exec of a module that is found, is not empty and has the memory returns 0. -/
theorem Inv.sysExec_succeeds (h : Inv L R safe k) {kernelByte : Nat → Option UInt8}
    {frame : SyscallFrame} {path : List UInt8} {modStart modEnd : Nat}
    (hpath : copyUserString (k.store.mem.readVirtual kernelByte) frame.ebx execPathMax =
      some (some path))
    (hfound : moduleLoaderFindModuleByPath k.modules path = some (modStart, modEnd))
    (hlt : modStart < modEnd)
    (hroom : Memory.imageDemand (modEnd - modStart) ≤ k.store.mem.pfa.freeCount) :
    ∃ k' frame', k.sysExec kernelByte frame = some (0, k', frame') := by
  have hspec := execModule_spec h frame modStart modEnd
  rw [sysExec_eq hpath hfound]
  generalize k.execModule frame modStart modEnd = r at hspec ⊢
  cases hspec with
  | failed inv aside short => omega
  | done inv executed room => exact ⟨_, _, rfl⟩

/-- A frame of a module that starts on a page boundary is reserved in every state. -/
theorem Inv.module_reserved (h : Inv L (Reserved L B.mods) safe k) {mod : MultibootModule}
    (hmod : mod ∈ B.mods) (haligned : mod.modStart % 4096 = 0) (x : Nat) (hlo : mod.modStart ≤ x)
    (hhi : x < mod.modEnd) : k.store.mem.pfa.used (x / 4096) = true := by
  have hused := module_used h.holding.store.spaces hmod haligned
    (show x - mod.modStart < mod.modEnd - mod.modStart by omega)
  rw [show mod.modStart + (x - mod.modStart) = x by omega] at hused
  exact hused

/-- The process of the sample boot execs its own module. -/
theorem sampleExec_runs :
    ∃ k₀ k' frame' d, kmain sampleLayout (sampleBoot 1 (by decide) .rr) = some k₀ ∧
      k₀.store.mem.pfa.exhausted = false ∧
      moduleLoaderFindModuleByPath k₀.modules [97] = some (0x300000, 0x301000) ∧
      k₀.sysExec (samplePath 97) sampleExec = some (0, k', frame') ∧
      Executed k₀ 0x300000 0x301000 k' d := by
  obtain ⟨k₀, hboot, hroom, -⟩ :=
    sampleBoot_room (show 0 < 1 by decide) (by decide) SchedulingPolicy.rr
  have hinv := kmain_inv hboot
  have hpath := samplePath_read k₀.store.mem (show (97 : UInt8) ≠ 0 by decide)
  have hfound : moduleLoaderFindModuleByPath k₀.modules [97] = some (0x300000, 0x301000) := by
    rw [(kmain_started hboot).modules]
    decide
  have hdemand : Memory.imageDemand (0x301000 - 0x300000) = 5 := by decide
  have hframes := hroom.frames
  obtain ⟨k', frame', hrun⟩ :=
    hinv.sysExec_succeeds hpath hfound (by norm_num) (by rw [hdemand]; omega)
  obtain ⟨d, hexecuted, -⟩ := hinv.sysExec_executed hpath hfound hrun
  exact ⟨k₀, k', frame', d, hboot, hroom.plenty, hfound, hrun, hexecuted⟩

theorem exec_builds_image_iff_one_module :
    ∃ k₀ k' frame', kmain sampleLayout (sampleBoot 1 (by decide) .rr) = some k₀ ∧
      k₀.sysExec (samplePath 97) sampleExec = some (0, k', frame') ∧
      ExecBuilt k₀ 0x300000 0x301000 k' frame' := by
  obtain ⟨k₀, k', frame', -, hboot, hplenty, hfound, hrun, -⟩ := sampleExec_runs
  have hinv := kmain_inv hboot
  have hmod : sampleModule 0 ∈ (sampleBoot 1 (by decide) .rr).mods := List.mem_cons_self
  refine ⟨k₀, k', frame', hboot, hrun, (exec_builds_image_iff hboot .boot
    (samplePath_read k₀.store.mem (by decide)) hfound (hinv.module_reserved hmod (by decide))
    hrun).2 ?_⟩
  exact hinv.holding.store.spaces.filled hplenty _ hinv.loaded.2

/-- The first process keeps its frames while another one is made. -/
theorem FirstMade.words_kept {k k' : Kernel} {p d : Nat} {x : BootFrames} (h : FirstMade k p d x)
    (hkept : ∀ f, f ≠ 0 → k.store.mem.pfa.used f = true →
      ByteMemory.BlockEq k.store.mem.phys k'.store.mem.phys f) :
    BootWords k'.store.mem.phys d x := by
  have hspaces := h.booting.holding.store.spaces
  have hdirs : d ∈ k.booted.map k.dirOf := by
    rw [h.booted, List.map_singleton, List.mem_singleton, dirOf, h.pdt,
      Nat.mul_div_cancel_left _ (by norm_num)]
  have hframe : ∀ f ∈ d :: x.list, ByteMemory.BlockEq k.store.mem.phys k'.store.mem.phys f := by
    intro f hf
    have hf0 : f ≠ 0 := by
      rintro rfl
      rcases List.mem_cons.1 hf with hd | hf
      · exact (hspaces.space d hdirs).dir_ne hd.symm
      · exact h.nonzero hf
    obtain ⟨s, hs⟩ := h.words.slots f hf
    exact hkept f hf0 (hspaces.owned hdirs ⟨hf0, s, hs⟩).1
  exact h.words.kept (hframe d List.mem_cons_self) (hframe _ (by simp [BootFrames.list]))
    (hframe _ (by simp [BootFrames.list]))

/-- The second module becomes a process without a frame for its stack. -/
theorem FirstMade.second {k : Kernel} {p d : Nat} {x : BootFrames} (h : FirstMade k p d x) :
    ∃ p' k', bootModule sampleLayout (p, k) ⟨4096 * 527, 2 ^ 26, some [97]⟩ = some (p, k') ∧
      k'.sched.ready.toList = [p'] ∧ p' ≠ p ∧ (k'.pcbs p).pdt = 4096 * d ∧
      BootWords k'.store.mem.phys d x ∧
      k'.store.mem.slots ((k'.pcbs p').pdt / 4096) (.page 767 1023) = some 0 := by
  have hspec := createPcbGrubModules_spec h.booting.holding (4096 * 527) (2 ^ 26)
  have hframes := h.frames
  have hheap := h.heap
  have hempty : k.sched.ready.toList = [] := by
    have hqueue := h.booting.queue
    rw [h.booted, if_neg h.pcb_ne, List.singleton_append, List.cons.injEq] at hqueue
    exact hqueue.2.symm
  cases hres : k.createPcbGrubModules sampleLayout (4096 * 527) (2 ^ 26) with
  | none =>
      rw [hres] at hspec
      cases hspec with
      | fault high =>
          simp only [Memory.copySize] at high
          omega
  | some r =>
      rw [hres] at hspec
      cases hspec with
      | failed hold beside short =>
          unfold MakeShort at short
          omega
      | @made k' m₀ p' d' base x' made =>
          have hv := h.booting.views made.beside
          have hp : p ∈ k.booted ++ k.dropped := by simp [h.booted]
          have hlen : k'.sched.ready.len < readyQueueCapacity := by
            rw [hv.ready, ← RingBuffer.length_toList, hempty]
            decide
          obtain ⟨ready, hready, hrun⟩ := Made.enqueued
            ⟨4096 * 527, 2 ^ 26, some [97]⟩ made hres h.pcb_ne hlen
          refine ⟨p', _, hrun, ?_, Ne.symm (made.fresh _ (h.booting.live hp)), ?_,
            h.words_kept fun f hf hused => made.kept_used hf hused, ?_⟩
          · change ready.toList = [p']
            rw [hready, hv.ready, hempty, List.nil_append]
          · change (k'.pcbs p).pdt = 4096 * d
            rw [hv.pcb p hp]
            exact h.pdt
          · change k'.store.mem.slots ((k'.pcbs p').pdt / 4096) _ = _
            rw [made.pcb_eq]
            change k'.store.mem.slots (4096 * d' / 4096) _ = _
            rw [Nat.mul_div_cancel_left _ (by norm_num)]
            exact made.stack_zero hframes.2

/-- The process that runs has six frames, and the one that waits has frame 0 for a stack. -/
theorem starvedBoot_runs :
    ∃ k₀ p, kmain sampleLayout starvedBoot = some k₀ ∧ k₀.sched.ready.toList = [p] ∧
      k₀.store.mem.slots (k₀.dirOf p) (.page 767 1023) = some 0 ∧
      6 ≤ k₀.store.mem.ownedCount (k₀.dirOf k₀.sched.currentPcb) := by
  obtain ⟨p, k₁, d, x, hrun₁, hfirst⟩ := starvedBoot_first
  obtain ⟨p', k₂, hrun₂, hready, hne, hpdt, hwords, hslot⟩ := hfirst.second
  have hkmain : kmain sampleLayout starvedBoot = some (k₂.runUserModeModule p) := by
    have hloop : starvedBoot.mods.foldlM (bootModule sampleLayout)
        (0, bootKernel sampleLayout starvedBoot) = some (p, k₂) := by
      have hmods : starvedBoot.mods =
          [⟨4096 * 526, 4096 * 527, some [98]⟩, ⟨4096 * 527, 2 ^ 26, some [97]⟩] := rfl
      rw [hmods, List.foldlM_cons, hrun₁, Option.bind_eq_bind, Option.bind_some, List.foldlM_cons,
        hrun₂, Option.bind_eq_bind, Option.bind_some, List.foldlM_nil]
      rfl
    exact kmain_of_loop hloop hfirst.pcb_ne
  have hinv := kmain_inv hkmain
  rw [runUserModeModule_eq k₂ hfirst.pcb_ne] at hkmain hinv
  refine ⟨_, p', hkmain, hready, ?_, ?_⟩
  · simp only [dirOf, Function.update_of_ne hne]
    exact hslot
  · have hdir : (Function.update k₂.pcbs p { k₂.pcbs p with
        lastDispatchTick := k₂.pitTicks
        state := .running } p).pdt / 4096 = d := by
      rw [Function.update_self]
      change (k₂.pcbs p).pdt / 4096 = d
      rw [hpdt, Nat.mul_div_cancel_left _ (by norm_num)]
    have hspaces := hinv.holding.store.spaces
    have hloaded := hinv.loaded.2
    simp only [dirOf, hdir] at hloaded ⊢
    refine hspaces.length_le_ownedCount hloaded hfirst.nodup fun f hf => ?_
    obtain ⟨s, hs⟩ := BootWords.slots (m := k₂.store.mem.updateCr3 (k₂.pcbs p).pdt) hwords f hf
    refine ⟨?_, s, hs⟩
    rintro rfl
    rcases List.mem_cons.1 hf with hd | hf
    · exact (hspaces.space d hloaded).dir_ne hd.symm
    · exact hfirst.nonzero hf

/-- The first process exits and leaves its frames to the second one, whose stack page is
frame 0; the second one execs, and frame 0 stays in use. -/
theorem exec_keeps_frame_zero :
    ∃ k₀ k k' frame', kmain sampleLayout starvedBoot = some k₀ ∧ Reachable sampleLayout k₀ k ∧
      (∀ x, 4096 * 526 ≤ x → x < 4096 * 527 → k.store.mem.pfa.used (x / 4096) = true) ∧
      k.sysExec (samplePath 98) sampleExec = some (0, k', frame') ∧
      ¬ ExecBuilt k (4096 * 526) (4096 * 527) k' frame' := by
  obtain ⟨k₀, p, hboot, hready, hslot, howned⟩ := starvedBoot_runs
  have hinv₀ := kmain_inv hboot
  have hexit := trap_exit (L := sampleLayout) (sampleCall 5) (fun _ => none)
    (kmain_started hboot).idle (by decide) rfl
  have hspec := sysExit_spec hinv₀ (sampleCall 5)
  generalize k₀.sysExit (sampleCall 5) = r at hexit hspec
  cases hspec with
  | idle inv idle kept members alone =>
      rw [alone] at hready
      cases hready
  | @switched r k frame inv exited =>
      have hk : Reachable sampleLayout k₀ k := .trap .boot hexit
      have hcurrent : k.sched.currentPcb = p := by
        have hmem := exited.ready.mem_iff.2 k.current_mem
        rw [hready, List.mem_singleton] at hmem
        exact hmem
      have hdir : k.dirOf p = k₀.dirOf p := by
        rw [dirOf, (exited.pcbs p).1]
        rfl
      have hslot' : k.store.mem.slots (k.dirOf k.sched.currentPcb) (.page 767 1023) = some 0 := by
        rw [hcurrent, hdir, exited.slots p (by rw [hready]; exact List.mem_cons_self)]
        exact hslot
      have hpath := samplePath_read k.store.mem (show (98 : UInt8) ≠ 0 by decide)
      have hfound : moduleLoaderFindModuleByPath k.modules [98] =
          some (4096 * 526, 4096 * 527) := by
        rw [exited.modules, (kmain_started hboot).modules]
        decide
      have hdemand : Memory.imageDemand (4096 * 527 - 4096 * 526) = 5 := by decide
      have hcount := exited.count
      obtain ⟨k', frame', hrun⟩ :=
        inv.sysExec_succeeds hpath hfound (by norm_num) (by rw [hdemand]; omega)
      have hmod : (⟨4096 * 526, 4096 * 527, some [98]⟩ : MultibootModule) ∈ starvedBoot.mods :=
        List.mem_cons_self
      refine ⟨k₀, k, k', frame', hboot, hk, inv.module_reserved hmod (by decide), hrun,
        fun hbuilt => ?_⟩
      obtain ⟨d, hexecuted, -⟩ := inv.sysExec_executed hpath hfound hrun
      exact (hexecuted.freed_iff inv).1 hbuilt.freed _ hslot'

end ExecBuilds

end Kernel

end SoKernel
