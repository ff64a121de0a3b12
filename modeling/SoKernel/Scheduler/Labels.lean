import SoKernel.Kernel.Population

/-!
# State labels

Each control block carries a label that should say whether its process runs, waits or
has ended.  Scheduling, fork and exits that switch keep the labels true.  Two paths do
not: an exec that succeeds marks the running process as ready, and an exit that finds no
other process marks the process that has ended as running again.

Main results:

- Theorem {lit}`Labelled.schedule`: a scheduling call that requeues keeps the labels.
- Theorem {lit}`labels_true_without_defects`: the labels along runs without the two paths.
-/

namespace SoKernel

namespace Kernel

section Labels

variable {L : Layout} {R : Nat → Prop} {safe : Prop} {B : BootInfo} {k k₀ k' : Kernel}

/-- The labels say what is the case. -/
structure Labelled (k : Kernel) : Prop where
  running : k.current.state = .running
  ready : ∀ p ∈ k.sched.ready.toList, (k.pcbs p).state = .ready
  terminated : ∀ p ∈ k.exited, (k.pcbs p).state = .terminated

/-- The image that an exec builds, for the path it reads in the state before it. -/
def execImage (k : Kernel) : Trap → Option Memory.Image
  | .timer _ => none
  | .syscall frame kernelByte =>
      if frame.eax = 2 then
        match copyUserString (k.store.mem.readVirtual kernelByte) frame.ebx execPathMax with
        | some (some path) =>
            match moduleLoaderFindModuleByPath k.modules path with
            | some (modStart, modEnd) => (k.store.mem.buildNewImage modStart modEnd).1
            | none => none
        | _ => none
      else none

/-- A trap on which the labels stay true: no exec that builds an image, and no exit while
no other process is ready. -/
def KeepsLabels (k : Kernel) (t : Trap) : Prop :=
  k.execImage t = none ∧ (t.IsExit → k.sched.ready.toList ≠ [])

/-! ## Scheduling -/

/-- A scheduling call that requeues the current process keeps the labels. -/
theorem Labelled.schedule (h : Labelled k) (hnodup : k.members.Nodup) (hz : 0 ∉ k.members)
    (hgone : ∀ p ∈ k.exited, p ∉ k.members) (c : ProcessContext) (id : StatContext) :
    Labelled (k.schedulerScheduleFromContext c true id).2.1 := by
  have hcases := schedule_cases c true id hz
  generalize k.schedulerScheduleFromContext c true id = r at hcases
  have hne : ∀ p ∈ k.sched.ready.toList, p ≠ k.sched.currentPcb := fun p hp hpc =>
    (List.nodup_cons.1 hnodup).1 (hpc ▸ hp)
  have hout : ∀ p ∈ k.exited, p ≠ k.sched.currentPcb := fun p hp hpc =>
    hgone p hp (hpc ▸ k.current_mem)
  cases hcases with
  | sliceLeft hrr hreq hleft => exact ⟨h.running, h.ready, h.terminated⟩
  | refused hreq hslice hfull =>
      refine ⟨?_, fun p hp => ?_, fun p hp => ?_⟩
      · change (((k.saved c true).setPcb k.sched.currentPcb _).pcbs k.sched.currentPcb).state = _
        rw [stayed_pcbs, if_pos rfl]
      · rw [stayed_pcbs, if_neg (hne p hp)]
        exact h.ready p hp
      · rw [stayed_pcbs, if_neg (hout p hp)]
        exact h.terminated p hp
  | alone hreq hempty => cases hreq
  | @switch next ready hslice hroom hperm hfifo =>
      have hperm' : k.members.Perm (next :: ready.toList) :=
        (List.perm_append_singleton _ _).symm.trans hperm
      have hnodup' := hperm'.nodup_iff.1 hnodup
      refine ⟨?_, fun p hp => ?_, fun p hp => ?_⟩
      · change (Kernel.pcbs _ next).state = _
        rw [switched_pcbs, if_pos rfl]
        simp
      · have hpn : p ≠ next := fun hpn => (List.nodup_cons.1 hnodup').1 (hpn ▸ hp)
        have hmem : p ∈ k.members := hperm'.mem_iff.2 (List.mem_cons_of_mem _ hp)
        rw [switched_pcbs, if_neg hpn]
        split
        · rfl
        · rename_i hpc
          exact h.ready p ((List.mem_cons.1 hmem).resolve_left hpc)
      · have hpn : p ≠ next := fun hpn =>
          hgone p hp (hperm'.mem_iff.2 (hpn ▸ List.mem_cons_self))
        rw [switched_pcbs, if_neg hpn, if_neg (hout p hp)]
        exact h.terminated p hp

/-! ## Exit -/

/-- An exit with another process ready switches, and keeps the labels. -/
theorem Labelled.sysExit (h : Labelled k) (hnodup : k.members.Nodup) (hz : 0 ∉ k.members)
    (hgone : ∀ p ∈ k.exited, p ∉ k.members) (hready : k.sched.ready.toList ≠ [])
    (frame : SyscallFrame) : Labelled (k.sysExit frame).2.1 := by
  have hcur : k.sched.currentPcb ≠ 0 := fun hc => hz (hc ▸ k.current_mem)
  have hcases := schedule_cases (k := k.markTerminated) (ProcessContext.ofWords frame.words) false
    .exit hz
  have hexit := @sysExit_eq k hcur frame
  generalize k.markTerminated.schedulerScheduleFromContext (ProcessContext.ofWords frame.words) false
    .exit = r at hcases hexit
  have hne : ∀ p ∈ k.sched.ready.toList, p ≠ k.sched.currentPcb := fun p hp hpc =>
    (List.nodup_cons.1 hnodup).1 (hpc ▸ hp)
  cases hcases with
  | sliceLeft hrr hreq hleft => cases hreq
  | refused hreq hslice hfull => cases hreq
  | alone hreq hempty => exact absurd hempty hready
  | @switch next ready hslice hroom hperm hfifo =>
      rw [hexit rfl, if_pos (by decide)]
      have hperm' : k.sched.ready.toList.Perm (next :: ready.toList) := by
        rw [candidates, if_neg (by decide), List.append_nil] at hperm
        exact hperm
      have hnodup' := hperm'.nodup_iff.1 (List.nodup_cons.1 hnodup).2
      have hnext : next ∈ k.sched.ready.toList := hperm'.mem_iff.2 List.mem_cons_self
      -- The process that exits keeps its label; the others are as before the call.
      have hpcb : ∀ p, p ≠ next → (({ k.markTerminated.saved (ProcessContext.ofWords frame.words)
          false with sched := { (k.markTerminated.saved (ProcessContext.ofWords frame.words)
            false).sched with ready := ready } } : Kernel).switched k.sched.currentPcb next
              .exit).pcbs p =
          if p = k.sched.currentPcb then
            savedIn (ProcessContext.ofWords frame.words) { k.current with state := .terminated }
          else k.pcbs p := by
        intro p hp
        refine (switched_pcbs k.markTerminated _ false ready next .exit p).trans ?_
        rw [if_neg hp]
        change (if p = k.sched.currentPcb then outgoing
          (k.markTerminated.pcbs k.sched.currentPcb) _ false _ else k.markTerminated.pcbs p) = _
        rw [markTerminated_pcbs, if_pos rfl, markTerminated_pcbs]
        split
        · rfl
        · rfl
      refine ⟨?_, fun p hp => ?_, fun p hp => ?_⟩
      · change ((Kernel.switched _ k.sched.currentPcb next .exit).pcbs next).state = _
        refine (congrArg Pcb.state (switched_pcbs k.markTerminated _ false ready next .exit
          next)).trans ?_
        rw [if_pos rfl]
        simp
      · have hp' : p ∈ k.sched.ready.toList := hperm'.mem_iff.2 (List.mem_cons_of_mem _ hp)
        have hpn : p ≠ next := fun hpn => (List.nodup_cons.1 hnodup').1 (hpn ▸ hp)
        change ((Kernel.switched _ k.sched.currentPcb next .exit).pcbs p).state = _
        rw [hpcb p hpn, if_neg (hne p hp')]
        exact h.ready p hp'
      · change p ∈ k.exited ++ [k.sched.currentPcb] at hp
        change ((Kernel.switched _ k.sched.currentPcb next .exit).pcbs p).state = _
        rcases List.mem_append.1 hp with hp | hp
        · have hpn : p ≠ next := fun hpn =>
            hgone p hp (List.mem_cons_of_mem _ (hpn ▸ hnext))
          have hpc : p ≠ k.sched.currentPcb := fun hpc => hgone p hp (hpc ▸ k.current_mem)
          rw [hpcb p hpn, if_neg hpc]
          exact h.terminated p hp
        · rw [List.mem_singleton] at hp
          subst hp
          rw [hpcb _ (Ne.symm (hne next hnext)), if_pos rfl]
          rfl

/-! ## Runs -/

/-- An exec that builds no image changes no control block. -/
theorem sysExec_pcbs {frame : SyscallFrame} {kernelByte : Nat → Option UInt8}
    {r : Nat × Kernel × SyscallFrame} (hnumber : frame.eax = 2)
    (hnone : k.execImage (.syscall frame kernelByte) = none)
    (hrun : k.sysExec kernelByte frame = some r) :
    r.2.1.pcbs = k.pcbs ∧ r.2.1.sched = k.sched ∧ r.2.1.exited = k.exited := by
  rcases sysExec_cases hrun with rfl | ⟨path, a, b, hpath, hfind, rfl⟩
  · exact ⟨rfl, rfl, rfl⟩
  · have hbuild : (k.store.mem.buildNewImage a b).1 = none := by
      simpa [execImage, hnumber, hpath, hfind] using hnone
    obtain ⟨m, hm⟩ : ∃ m, k.store.mem.buildNewImage a b = (none, m) := ⟨_, Prod.ext hbuild rfl⟩
    by_cases hcur : k.sched.currentPcb = 0
    · simp only [execModule, if_pos hcur]
      exact ⟨trivial, trivial, trivial⟩
    · simp only [execModule, if_neg hcur, hm]
      exact ⟨rfl, rfl, rfl⟩

/-- Labels depend on the control blocks, the queue and the history only. -/
theorem Labelled.congr (h : Labelled k) (hpcbs : k'.pcbs = k.pcbs) (hsched : k'.sched = k.sched)
    (hexited : k'.exited = k.exited) : Labelled k' := by
  refine ⟨?_, ?_, ?_⟩
  · rw [current, hpcbs, hsched]
    exact h.running
  · rw [hpcbs, hsched]
    exact h.ready
  · rw [hpcbs, hexited]
    exact h.terminated

/-- A process that has left is not in the queue. -/
theorem Inv.gone (h : Inv L R safe k) : ∀ p ∈ k.exited, p ∉ k.members := fun p hp hmem =>
  (List.nodup_append.1 h.holders_nodup).2.2 p hmem p (List.mem_append_left _ hp) rfl

/-- A call that gives up leaves the labels. -/
theorem Labelled.aside (h : Labelled k) (ha : Aside k k') : Labelled k' := by
  refine ⟨?_, fun p hp => ?_, fun p hp => ?_⟩
  · rw [ha.current]
    exact h.running
  · have hready : k'.sched.ready = k.sched.ready := by rw [ha.sched]
    rw [hready] at hp
    rw [ha.pcbs p (mem_holders (List.mem_cons_of_mem _ hp))]
    exact h.ready p hp
  · rw [ha.exited] at hp
    rw [ha.pcbs p (List.mem_append_right _ (List.mem_append_left _ hp))]
    exact h.terminated p hp

/-- The child of a fork is ready, and the others keep their labels. -/
theorem Labelled.forked {frame : SyscallFrame} {child d base : Nat} (h : Labelled k)
    (hf : Forked k frame k' child d base) : Labelled k' := by
  have hcur : k'.sched.currentPcb = k.sched.currentPcb := by rw [hf.sched]
  refine ⟨?_, fun p hp => ?_, fun p hp => ?_⟩
  · rw [current, hcur, hf.others _ (mem_holders k.current_mem)]
    exact h.running
  · rw [hf.ready] at hp
    rcases List.mem_append.1 hp with hp | hp
    · rw [hf.others p (mem_holders (List.mem_cons_of_mem _ hp))]
      exact h.ready p hp
    · rw [List.mem_singleton.1 hp, hf.pcb]
      rfl
  · rw [hf.exited] at hp
    rw [hf.others p (List.mem_append_right _ (List.mem_append_left _ hp))]
    exact h.terminated p hp

/-- A trap outside the two paths keeps the labels. -/
theorem Labelled.trap (h : Labelled k) (hinv : Inv L R safe k) {t : Trap} {out : ProcessContext}
    (hok : k.KeepsLabels t) (ht : k.trap L t = some (k', out)) : Labelled k' := by
  have hnodup := hinv.members_nodup
  have hz := hinv.zero_notMem
  have hgone := hinv.gone
  obtain ⟨-, hcase⟩ := trap_cases ht
  cases hcase with
  | quiet hquiet => exact ⟨h.running, h.ready, h.terminated⟩
  | @timer frame code k' context henabled hring hrun =>
      have htick : Labelled k.tick := ⟨h.running, h.ready, h.terminated⟩
      have hlabels := htick.schedule hnodup hz hgone (frameUserToContext frame) .pit
      rw [hrun] at hlabels
      exact hlabels
  | plain hring hnumber => exact h
  | @exec frame frame' kernelByte r k' hring hnumber hrun =>
      obtain ⟨hpcbs, hsched, hexited⟩ := sysExec_pcbs hnumber hok.1 hrun
      exact h.congr hpcbs hsched hexited
  | @fork frame kernelByte r k' hring hnumber hrun =>
      have hspec := sysFork_spec hinv frame
      rw [hrun] at hspec
      cases hspec with
      | failed inv aside short => exact h.aside aside
      | forked inv forked => exact h.forked forked
  | @yield frame frame' kernelByte r k' hring hnumber hrun =>
      obtain ⟨code, k₁, context, hsched, hyield⟩ := sysYield_eq hz hinv.holding.cr3 frame
      have hlabels := h.schedule hnodup hz hgone (ProcessContext.ofWords frame.words) .yield
      rw [hrun, Prod.mk.injEq, Prod.mk.injEq] at hyield
      rw [hsched] at hlabels
      rw [hyield.2.1]
      exact hlabels
  | @exit frame frame' kernelByte r k' hring hnumber hrun =>
      have hlabels := h.sysExit hnodup hz hgone (hok.2 hnumber) frame
      rw [hrun] at hlabels
      exact hlabels

/-- The labels are true along every run in which no exec builds an image and no process
exits while no other is ready. -/
theorem labels_true_without_defects (hboot : kmain L B = some k₀)
    (hk : ReachableWhere L k₀ KeepsLabels k) : Labelled k := by
  have hinv₀ := kmain_inv hboot
  have hstarted := kmain_started hboot
  induction hk with
  | boot =>
      refine ⟨hstarted.running, hstarted.ready, fun p hp => ?_⟩
      rw [hstarted.exited] at hp
      cases hp
  | trap hk hok ht ih => exact ih.trap (hinv₀.reachable hk.reachable) hok ht
  | write hk hsafe hw ih =>
      obtain ⟨i, j, f, hpage⟩ := (hinv₀.reachable hk.reachable).writePage hsafe hw
      rw [hpage.kernel]
      exact ih.congr rfl rfl rfl

theorem labels_true_without_defects_two_modules :
    ∃ k₀ k, kmain sampleLayout (sampleBoot 2 (by decide) .sjf) = some k₀ ∧
      k₀.trap sampleLayout (.timer sampleTick) = some k ∧ Labelled k.1 := by
  obtain ⟨k₀, hboot, -⟩ :=
    sampleBoot_runs (show 0 < 2 by decide) (by decide) SchedulingPolicy.sjf
  have htrap := trap_timer (L := sampleLayout) (kmain_started hboot).idle sampleTick
  exact ⟨k₀, _, hboot, htrap, labels_true_without_defects hboot
    (.trap .boot ⟨rfl, fun hexit => absurd hexit id⟩ htrap)⟩

/-- The only process exits and is marked as running again. -/
theorem last_exit_marks_running :
    ∃ k₀ k out, kmain sampleLayout (sampleBoot 1 (by decide) .rr) = some k₀ ∧
      k₀.trap sampleLayout (.syscall (sampleCall 5) fun _ => none) = some (k, out) ∧
      (k.pcbs k₀.sched.currentPcb).state ≠ .terminated := by
  obtain ⟨k₀, hboot, -, hlen, -⟩ :=
    sampleBoot_runs (show 0 < 1 by decide) (by decide) SchedulingPolicy.rr
  have hinv := kmain_inv hboot
  have hempty : k₀.sched.ready.toList = [] := by
    rw [members, List.length_cons] at hlen
    exact List.length_eq_zero_iff.1 (Nat.succ.inj hlen)
  refine ⟨k₀, _, _, hboot, trap_exit _ _ (kmain_started hboot).idle (by decide) rfl, ?_⟩
  have hcases := schedule_cases (k := k₀.markTerminated)
    (ProcessContext.ofWords (sampleCall 5).words) false .exit hinv.zero_notMem
  have hexit := @sysExit_eq k₀ hinv.current_ne (sampleCall 5)
  generalize k₀.markTerminated.schedulerScheduleFromContext
    (ProcessContext.ofWords (sampleCall 5).words) false .exit = r at hcases hexit
  cases hcases with
  | sliceLeft hrr hreq hleft => cases hreq
  | refused hreq hslice hfull => cases hreq
  | alone hreq hnone =>
      rw [hexit rfl, if_neg (by decide)]
      change (((k₀.markTerminated.saved _ false).setPcb k₀.markTerminated.sched.currentPcb _).pcbs
        k₀.markTerminated.sched.currentPcb).state ≠ _
      rw [stayed_pcbs, if_pos rfl]
      simp
  | switch hslice hroom hperm hfifo =>
      have hcount := hperm.length_eq
      rw [candidates, if_neg (by decide), List.append_nil] at hcount
      change k₀.sched.ready.toList.length = _ at hcount
      rw [hempty] at hcount
      cases hcount

end Labels

end Kernel

end SoKernel
