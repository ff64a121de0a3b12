import SoKernel.Kernel.Memories

/-!
# Where the frames are

The frames that the allocator manages are free, or in the address space of a process, or behind
the pages of the heap.  This module follows their numbers along runs: nothing that a process does
takes a frame out of circulation, as long as no fork fails for want of memory.

Main results:

- Theorem {lit}`FedStep.balance`: a step only moves frames.
- Theorem {lit}`frames_conserved`: so does a run.
-/

namespace SoKernel

namespace Memory

/-- The number of frames in the places of a space. -/
noncomputable def spaceFrames (m : Memory) (d : Nat) : Nat :=
  Set.ncard {f | Owns (m.slots d) f}

section Spaces

variable {F : Nat → Prop} {safe : Prop} {m m' : Memory} {d : Nat} {ds : List Nat}

theorem spaceFrames_congr (h : m'.slots d = m.slots d) : m'.spaceFrames d = m.spaceFrames d := by
  unfold spaceFrames
  rw [h]

open Classical in
/-- The frames of a space are managed. -/
theorem Spaces.ownedCount_eq (h : Spaces F safe m ds) (hd : d ∈ ds) :
    m.ownedCount d = m.spaceFrames d := by
  unfold ownedCount spaceFrames
  rw [← Set.ncard_coe_finset]
  congr 1
  ext f
  rw [Finset.mem_coe, Finset.mem_filter, Finset.mem_Ico, Set.mem_ofPred_eq]
  exact ⟨And.right, fun howns => ⟨(h.owned hd howns).2.1, howns⟩⟩

end Spaces

end Memory

namespace Kernel

/-- The frames in the address spaces of the processes. -/
noncomputable def framesHeld (k : Kernel) : Nat :=
  (k.members.map fun p => k.store.mem.spaceFrames (k.dirOf p)).sum

/-- The bytes in free frames, in address spaces and in the heap, up to where the heap starts. -/
noncomputable def balance (k : Kernel) : Nat :=
  4096 * (k.store.mem.pfa.freeCount + k.framesHeld) + k.store.heap.heapCurrent

/-- A step of the kernel that is no fork without the memory for it, unless a child is made. -/
inductive FedStep (L : Layout) (safe : Prop) (k : Kernel) : Event → Kernel → Prop
  | trap {t : Trap} {out : ProcessContext} {k' : Kernel} (ht : k.trap L t = some (k', out))
      (hfed : t.IsFork → k'.forked = k.forked → ¬ k.ForkStarved) : FedStep L safe k (.trap t out) k'
  | write {va : Nat} {byte : UInt8} {k' : Kernel} (hsafe : safe)
      (hw : k.userWrite va byte = some k') : FedStep L safe k (.write va byte) k'

section Balance

variable {L : Layout} {R : Nat → Prop} {safe : Prop} {B : BootInfo} {k kk k₀ k' : Kernel}
  {child d : Nat} {frame : SyscallFrame}

/-! ## Steps that keep the spaces -/

/-- The processes in another order, with the spaces that they had. -/
theorem framesHeld_of_perm (hmembers : k'.members.Perm k.members)
    (hspaces : ∀ p ∈ k.members,
      k'.store.mem.spaceFrames (k'.dirOf p) = k.store.mem.spaceFrames (k.dirOf p)) :
    k'.framesHeld = k.framesHeld := by
  unfold framesHeld
  rw [(hmembers.map _).sum_eq, List.map_congr_left hspaces]

/-- The current process comes first. -/
theorem framesHeld_eq (k : Kernel) :
    k.framesHeld = k.store.mem.spaceFrames (k.dirOf k.sched.currentPcb) +
      (k.sched.ready.toList.map fun p => k.store.mem.spaceFrames (k.dirOf p)).sum := by
  unfold framesHeld members
  rw [List.map_cons, List.sum_cons]

/-- A process whose frames are not written keeps its places. -/
theorem slots_of_blocks {m m' : Memory} {d : Nat}
    (h : ∀ s f, m.slots d s = some f → ByteMemory.BlockEq m.phys m'.phys f) :
    m'.slots d = m.slots d :=
  slotFrame_congr (h .dir d rfl) fun i t ht => h (.table i) t ht

/-- A step that keeps the processes and the frames in use keeps the balance of the spaces. -/
theorem Inv.framesHeld_kept (h : Inv L R safe k) (hmembers : k'.members.Perm k.members)
    (hpdt : ∀ p ∈ k.members, (k'.pcbs p).pdt = (k.pcbs p).pdt)
    (hphys : ∀ f, ¬ k.store.mem.pfa.Free f →
      ByteMemory.BlockEq k.store.mem.phys k'.store.mem.phys f) : k'.framesHeld = k.framesHeld := by
  refine framesHeld_of_perm hmembers fun p hp => ?_
  have hdir : k'.dirOf p = k.dirOf p := by rw [dirOf, hpdt p hp, dirOf]
  rw [hdir]
  exact Memory.spaceFrames_congr (slots_of_blocks fun s f hs => hphys f (h.slot_not_free hp hs))

/-- A scheduling call that requeues the current process. -/
theorem Inv.schedule_balance (h : Inv L R safe k) (c : ProcessContext) (id : StatContext) :
    (k.schedulerScheduleFromContext c true id).2.1.balance = k.balance := by
  have hr := h.rescheduled c true id
  have hmembers := h.schedule_members c id
  obtain ⟨code, k', out, hrun, -, hcases⟩ := schedule_spec h.zero_notMem h.holding.cr3 c true id
  rw [hrun] at hr hmembers ⊢
  have hstore : k'.store.mem.phys = k.store.mem.phys ∧ k'.store.mem.pfa = k.store.mem.pfa := by
    rcases hcases with ⟨-, hstore, -⟩ | ⟨-, hstore, -⟩
    · rw [hstore]
      exact ⟨rfl, rfl⟩
    · rw [hstore]
      exact ⟨rfl, rfl⟩
  have hheld : k'.framesHeld = k.framesHeld := by
    refine h.framesHeld_kept hmembers (fun p _ => (hr.pcbs p).1) fun f _ => ?_
    rw [hstore.1]
    exact ByteMemory.BlockEq.refl _ _
  unfold balance
  simp only
  rw [hheld, hstore.2, hr.heap]

/-! ## Exec -/

/-- An exec exchanges the frames of the caller's space. -/
theorem Inv.execModule_frames (h : Inv L R safe k) (frame : SyscallFrame) (modStart modEnd : Nat)
    {k' : Kernel} {r : Nat} {frame' : SyscallFrame}
    (hrun : k.execModule frame modStart modEnd = (r, k', frame')) :
    k'.store.mem.pfa.freeCount + k'.store.mem.spaceFrames (k'.dirOf k.sched.currentPcb) =
      k.store.mem.pfa.freeCount + k.store.mem.spaceFrames (k.dirOf k.sched.currentPcb) := by
  obtain ⟨-, hloaded⟩ := h.loaded
  have hmemory := h.execModule_memory frame modStart modEnd
  rw [hrun] at hmemory
  simp only at hmemory
  rcases hmemory with ⟨d, m, hbuilt, -, hstore, hmem, hdir⟩ | ⟨m, hrestored, rfl⟩
  · obtain ⟨-, hslots⟩ := h.holding.store.built hbuilt
    obtain ⟨-, -, -, -, -, -, -, -, hkept⟩ := hstore.spaces.destroy
    have hnew : m.ownedCount d = m.spaceFrames d :=
      (h.holding.built hbuilt).store.spaces.ownedCount_eq List.mem_cons_self
    have hold := hstore.spaces.ownedCount_eq List.mem_cons_self
    have htaken := hbuilt.freeCount_add
    rw [hmem, hdir, hstore.spaces.freeCount_destroy,
      Memory.spaceFrames_congr (hkept d List.mem_cons_self), hold]
    change m.pfa.freeCount + m.spaceFrames (k.dirOf k.sched.currentPcb) + m.spaceFrames d = _
    rw [Memory.spaceFrames_congr (hslots _ hloaded)]
    omega
  · obtain ⟨-, hslots⟩ := h.holding.store.restored hrestored
    change m.pfa.freeCount + m.spaceFrames (k.dirOf k.sched.currentPcb) = _
    rw [Memory.spaceFrames_congr (hslots _ hloaded), Pfa.freeCount_congr hrestored.same.startFrame
      hrestored.same.totalFrames hrestored.used]

/-- An exec keeps the balance. -/
theorem Inv.execModule_balance (h : Inv L R safe k) (frame : SyscallFrame) (modStart modEnd : Nat)
    {k' : Kernel} {r : Nat} {frame' : SyscallFrame}
    (hrun : k.execModule frame modStart modEnd = (r, k', frame')) : k'.balance = k.balance := by
  have hframes := h.execModule_frames frame modStart modEnd hrun
  have hphys : ∀ {f : Nat}, ¬ k.store.mem.pfa.Free f → f ≠ k.dirOf k.sched.currentPcb →
      ByteMemory.BlockEq k.store.mem.phys k'.store.mem.phys f := by
    intro f hf hne
    have hwritten := h.execModule_phys frame modStart modEnd hf hne
    rw [hrun] at hwritten
    exact hwritten
  have hne : ∀ p ∈ k.sched.ready.toList, p ≠ k.sched.currentPcb := fun p hp hpc =>
    (List.nodup_cons.1 h.members_nodup).1 (hpc ▸ hp)
  have hkept : k'.sched = k.sched ∧ ∀ p, p ≠ k.sched.currentPcb → k'.pcbs p = k.pcbs p := by
    have hspec := execModule_spec h frame modStart modEnd
    rw [hrun] at hspec
    cases hspec with
    | failed inv aside short restored rest =>
        refine ⟨?_, fun p _ => ?_⟩
        · rw [rest]
        · rw [rest]
    | done inv executed room => exact ⟨executed.sched, executed.others⟩
  have hheap := execModule_heap k frame modStart modEnd
  rw [hrun] at hheap
  obtain ⟨hsched, hothers⟩ := hkept
  have hrest : (k'.sched.ready.toList.map fun p => k'.store.mem.spaceFrames (k'.dirOf p)) =
      k.sched.ready.toList.map fun p => k.store.mem.spaceFrames (k.dirOf p) := by
    rw [hsched]
    refine List.map_congr_left fun p hp => ?_
    have hmem : p ∈ k.members := List.mem_cons_of_mem _ hp
    rw [dirOf, hothers p (hne p hp), ← dirOf]
    exact Memory.spaceFrames_congr (slots_of_blocks fun s f hs =>
      hphys (h.slot_not_free hmem hs) (h.slot_ne_dir hmem k.current_mem (hne p hp) hs))
  unfold balance
  rw [framesHeld_eq, framesHeld_eq, hrest, hheap, hsched]
  omega

/-! ## Fork -/

theorem Forked.dirOf_child (hf : Forked k frame k' child d base) : k'.dirOf child = d := by
  rw [dirOf, hf.pcb]
  exact Nat.mul_div_cancel_left d (by norm_num)

/-- The frames of the child are among those held. -/
theorem Forked.framesHeld (hf : Forked k frame k' child d base) (h : Inv L R safe k) :
    k'.framesHeld = k.framesHeld + k'.store.mem.spaceFrames d := by
  have hothers : k.members.map (fun p => k'.store.mem.spaceFrames (k'.dirOf p)) =
      k.members.map fun p => k.store.mem.spaceFrames (k.dirOf p) := by
    refine List.map_congr_left fun p hp => ?_
    rw [dirOf, hf.others p (mem_holders hp), ← dirOf]
    exact Memory.spaceFrames_congr (slots_of_blocks fun s f hs =>
      hf.copied.kept f (h.slot_not_free hp hs))
  unfold Kernel.framesHeld
  rw [hf.members, List.map_append, List.sum_append, hothers, List.map_singleton, List.sum_singleton,
    hf.dirOf_child]

/-- A fork that had the memory for a child, or has made one, keeps the balance. -/
theorem Inv.fork_balance (h : Inv L R safe k) {r : Nat} (hrun : k.sysFork L frame = (r, k'))
    (hfed : k'.forked = k.forked → ¬ k.ForkStarved) : k'.balance = k.balance := by
  have hspec := sysFork_spec h frame
  rw [hrun] at hspec
  cases hspec with
  | failed inv aside short spent counter grown =>
      have hcount := (spent.resolve_left (hfed aside.forked)).count
      have hheld : k'.framesHeld = k.framesHeld := by
        refine h.framesHeld_kept (List.Perm.of_eq aside.members) (fun p hp => ?_) grown.phys
        rw [aside.pcbs p (mem_holders hp)]
      unfold balance
      rw [hheld]
      omega
  | @forked k' child d base inv forked spent =>
      have hcount := spent.count
      have hmem : d ∈ k'.allDirs := by
        rw [← forked.dirOf_child, allDirs, forked.members]
        exact List.mem_map_of_mem (List.mem_append_right _ List.mem_cons_self)
      rw [inv.holding.store.spaces.ownedCount_eq hmem] at hcount
      unfold balance
      rw [forked.framesHeld h]
      omega

/-! ## Exit -/

/-- A process that leaves gives the frames of its space back. -/
theorem Inv.leave_balance (h : Inv L R safe k) (he : Exited k k') : k'.balance = k.balance := by
  have hcount := he.count
  rw [h.holding.store.spaces.ownedCount_eq h.loaded.2] at hcount
  have hleft : k'.framesHeld =
      (k.sched.ready.toList.map fun p => k.store.mem.spaceFrames (k.dirOf p)).sum := by
    unfold framesHeld
    rw [← (he.ready.map _).sum_eq]
    refine congrArg List.sum (List.map_congr_left fun p hp => ?_)
    have hdir : k'.dirOf p = k.dirOf p := by rw [dirOf, (he.pcbs p).1, dirOf]
    rw [hdir]
    exact Memory.spaceFrames_congr (he.slots p hp)
  unfold balance
  rw [framesHeld_eq k, hleft, hcount, he.heap]
  omega

/-! ## Steps and runs -/

/-- A user write goes to a page, not to an entry. -/
theorem Inv.write_balance (h : Inv L R safe k) (hs : safe) {va : Nat} {byte : UInt8}
    (hw : k.userWrite va byte = some k') : k'.balance = k.balance := by
  obtain ⟨i, j, f, hpage⟩ := h.writePage hs hw
  have hkept := hpage.kept
  rw [hpage.kernel] at hkept ⊢
  obtain ⟨-, hslots⟩ := h.holding.store.write h.loaded.2 hpage.slot hpage.frame_ne hkept
  have hheld : (k.withMem { k.store.mem with
      phys := Function.update k.store.mem.phys (4096 * f + va % 4096) byte }).framesHeld =
        k.framesHeld :=
    framesHeld_of_perm (List.Perm.refl _) fun p hp =>
      Memory.spaceFrames_congr (hslots _ (List.mem_map_of_mem hp))
  unfold balance
  rw [hheld]
  rfl

/-- A step only moves frames: between the free ones, those of the spaces and those of the heap. -/
theorem FedStep.balance {e : Event} (h : Inv L R safe k) (hstep : FedStep L safe k e k') :
    k'.balance = k.balance := by
  cases hstep with
  | write hsafe hw => exact h.write_balance hsafe hw
  | @trap t out _ ht hfed =>
      obtain ⟨hidle, hcase⟩ := trap_cases ht
      cases hcase with
      | quiet hquiet => rfl
      | @timer frame code k' context henabled hring hrun =>
          have hbalance := h.tick.schedule_balance (frameUserToContext frame) .pit
          rw [hrun] at hbalance
          exact hbalance
      | plain hring hnumber => rfl
      | @exec frame frame' kernelByte r k' hring hnumber hrun =>
          rcases sysExec_cases hrun with heq | ⟨path, a, b, -, -, heq⟩
          · cases heq
            rfl
          · exact h.execModule_balance frame a b heq.symm
      | @fork frame kernelByte r k' hring hnumber hrun => exact h.fork_balance hrun (hfed hnumber)
      | @yield frame frame' kernelByte r k' hring hnumber hrun =>
          obtain ⟨code, k₁, context, hsched, hyield⟩ :=
            sysYield_eq h.zero_notMem h.holding.cr3 frame
          have hbalance := h.schedule_balance (ProcessContext.ofWords frame.words) .yield
          rw [hrun, Prod.mk.injEq, Prod.mk.injEq] at hyield
          rw [hsched] at hbalance
          rw [hyield.2.1]
          exact hbalance
      | @exit frame frame' kernelByte r k' hring hnumber hrun =>
          have hspec := sysExit_spec h frame
          rw [hrun] at hspec
          cases hspec with
          | switched inv exited => exact h.leave_balance exited
          | idle inv idle kept members alone =>
              have hstore := h.sysExit_store hidle hrun idle
              have hheld := h.framesHeld_kept (List.Perm.of_eq members)
                (fun p _ => (kept.pcbs p).1) fun f _ => by
                  rw [hstore]
                  exact ByteMemory.BlockEq.refl _ _
              unfold Kernel.balance
              rw [hheld, hstore]

/-- Along every run in which no fork fails for want of memory, the frames are conserved: the bytes
in free frames, in the address spaces of the processes and in the heap add up to what they were
after boot. -/
theorem frames_conserved (hboot : kmain L B = some k₀) {es : List Event}
    (h : Trace (FedStep L (k₀.store.mem.pfa.exhausted = false)) k₀ es k) :
    4096 * (k.store.mem.pfa.freeCount + k.framesHeld) + k.store.heap.heapCurrent =
      4096 * (k₀.store.mem.pfa.freeCount + k₀.framesHeld) + k₀.store.heap.heapCurrent := by
  have hall : ∀ e ∈ es, (fun _ : Event => True) e := fun _ _ => trivial
  have hrun : Inv L (Reserved L B.mods) (k₀.store.mem.pfa.exhausted = false) k ∧
      k.balance = k₀.balance := by
    refine h.invariant (fun k => Inv L (Reserved L B.mods) (k₀.store.mem.pfa.exhausted = false) k ∧
      k.balance = k₀.balance) ⟨kmain_inv hboot, rfl⟩ ?_ hall
    rintro k e k' ⟨hk, hbalance⟩ - hstep
    refine ⟨?_, (FedStep.balance hk hstep).trans hbalance⟩
    cases hstep with
    | trap ht hfed => exact hk.trap ht
    | write hsafe hw => exact hk.userWrite hsafe hw
  exact hrun.2

/-- The frames of a run with an exec, a write, a fork, a tick and an exit. -/
theorem frames_conserved_sample_run :
    ∃ k₀ k₁ k₂ k₃ k₄ k₅ out₁ out₃ out₄ out₅ p q child,
      kmain sampleLayout (sampleBoot 2 (by decide) .fcfs) = some k₀ ∧
      SampleRun k₀ k₁ k₂ k₃ k₄ k₅ out₁ out₃ out₄ out₅ p q child ∧
      4096 * (k₅.store.mem.pfa.freeCount + k₅.framesHeld) + k₅.store.heap.heapCurrent =
        4096 * (k₀.store.mem.pfa.freeCount + k₀.framesHeld) + k₀.store.heap.heapCurrent := by
  obtain ⟨k₀, k₁, k₂, k₃, k₄, k₅, out₁, out₃, out₄, out₅, p, q, child, hboot, hplenty, hrun⟩ :=
    sampleRun_exists
  have hexec : Trace (FedStep sampleLayout (k₀.store.mem.pfa.exhausted = false)) k₀ _ k₁ :=
    Trace.start.next (.trap hrun.exec fun hf => absurd (show 2 = 3 from hf) (by decide))
  have hwrite := hexec.next (.write hplenty hrun.write)
  -- The fork makes a child.
  have hfork := hwrite.next (.trap hrun.fork fun _ hsame => by
    rw [hrun.forked.2, hrun.written.2] at hsame
    cases hsame)
  have htick := hfork.next (.trap hrun.tick fun hf => absurd hf id)
  have hexit := htick.next (.trap hrun.exit fun hf => absurd (show 5 = 3 from hf) (by decide))
  exact ⟨k₀, k₁, k₂, k₃, k₄, k₅, out₁, out₃, out₄, out₅, p, q, child, hboot, hrun,
    frames_conserved hboot hexit⟩

end Balance

end Kernel

end SoKernel
