import SoKernel.Kernel.Traps
import SoKernel.Syscall.Exec
import SoKernel.Syscall.Fork

/-!
# The invariant along runs

Every trap and every user write keeps the invariant, so it holds in every state that
can be reached from a state that has it.

Main results:

- Theorem {lit}`sysExit_spec`: an exit that switches gives back the address space of the
  process and keeps its heap blocks; one that finds no other process leaves the kernel
  idle.
- Theorem {lit}`Inv.trap`: a trap keeps the invariant.
- Theorem {lit}`Inv.userWrite`: a user write keeps the invariant and changes one byte of one
  page of the current process.
- Theorem {lit}`Inv.reachable`: the invariant holds along runs.
-/

namespace SoKernel

namespace Kernel

section Preservation

variable {L : Layout} {R : Nat → Prop} {safe : Prop} {k k' : Kernel}

/-! ## Traps that requeue the current process -/

/-- A change of control blocks that keeps their pointers. -/
theorem Inv.relabel (h : Inv L R safe k) (hr : Rescheduled k k') (hstore : k'.store = k.store)
    (htss : k'.tssEsp0 = k.tssEsp0) (hmembers : k'.members = k.members) : Inv L R safe k' :=
  h.requeue hr (.inl ⟨hstore, htss, hmembers⟩)

/-- A scheduling call that requeues the current process. -/
theorem Inv.schedule (h : Inv L R safe k) (c : ProcessContext) (id : StatContext) :
    Inv L R safe (k.schedulerScheduleFromContext c true id).2.1 := by
  obtain ⟨code, k', out, hrun, hr, hcases⟩ :=
    schedule_spec h.zero_notMem h.holding.cr3 c true id
  rw [hrun]
  refine h.requeue hr ?_
  rcases hcases with ⟨-, hstore, htss, hmembers, -⟩ | ⟨-, hstore, htss, hperm⟩
  · exact .inl ⟨hstore, htss, hmembers⟩
  · exact .inr ⟨hstore, htss, hperm⟩

theorem Inv.rescheduled (h : Inv L R safe k) (c : ProcessContext) (requeue : Bool)
    (id : StatContext) : Rescheduled k (k.schedulerScheduleFromContext c requeue id).2.1 := by
  obtain ⟨code, k', out, hrun, hr, -⟩ := schedule_spec h.zero_notMem h.holding.cr3 c requeue id
  rw [hrun]
  exact hr

/-- A scheduling call that requeues the current process keeps the processes. -/
theorem Inv.schedule_members (h : Inv L R safe k) (c : ProcessContext) (id : StatContext) :
    (k.schedulerScheduleFromContext c true id).2.1.members.Perm k.members := by
  obtain ⟨code, k', out, hrun, -, hcases⟩ := schedule_spec h.zero_notMem h.holding.cr3 c true id
  rw [hrun]
  rcases hcases with ⟨-, -, -, hmembers, -⟩ | ⟨-, -, -, hperm⟩
  · exact List.Perm.of_eq hmembers
  · exact hperm.symm.trans (List.perm_append_singleton _ _)

theorem Rescheduled.refl (k : Kernel) : Rescheduled k k :=
  ⟨fun _ => ⟨rfl, rfl, rfl⟩, fun _ => rfl, rfl, rfl, rfl, rfl, rfl, rfl, rfl, rfl⟩

theorem Rescheduled.trans {k₁ k₂ k₃ : Kernel} (h : Rescheduled k₁ k₂) (h' : Rescheduled k₂ k₃) :
    Rescheduled k₁ k₃ := by
  refine ⟨fun p => ?_, fun p => (h'.pids p).trans (h.pids p), h'.nextPid.trans h.nextPid,
    h'.heap.trans h.heap, h'.modules.trans h.modules, h'.idle.trans h.idle,
    h'.booted.trans h.booted, h'.dropped.trans h.dropped, h'.forked.trans h.forked,
    h'.exited.trans h.exited⟩
  obtain ⟨hpdt, hbase, hesp⟩ := h.pcbs p
  obtain ⟨hpdt', hbase', hesp'⟩ := h'.pcbs p
  exact ⟨hpdt'.trans hpdt, hbase'.trans hbase, hesp'.trans hesp⟩

theorem rescheduled_tick (k : Kernel) : Rescheduled k k.tick :=
  ⟨fun _ => ⟨rfl, rfl, rfl⟩, fun _ => rfl, rfl, rfl, rfl, rfl, rfl, rfl, rfl, rfl⟩

/-- A tick. -/
theorem Inv.tick (h : Inv L R safe k) : Inv L R safe k.tick :=
  h.relabel (rescheduled_tick k) rfl rfl rfl

/-- {lit}`sys_yield` returns the image of the process that it switched to, or of the caller. -/
theorem sysYield_eq (hz : 0 ∉ k.members) (hcr3 : k.store.mem.cr3 = k.current.pdt)
    (frame : SyscallFrame) :
    ∃ code k' context, k.schedulerScheduleFromContext (ProcessContext.ofWords frame.words) true
        .yield = (code, k', context) ∧
      k.sysYield frame = (context.eax, k', SyscallFrame.ofWords context.words) := by
  obtain ⟨code, k', context, hrun, -, hcode⟩ :=
    schedule_spec hz hcr3 (ProcessContext.ofWords frame.words) true .yield
  refine ⟨code, k', context, hrun, ?_⟩
  have hnonneg : ¬ code < 0 := by
    rcases hcode with ⟨rfl, -⟩ | ⟨rfl, -⟩
    · decide
    · decide
  unfold Kernel.sysYield
  simp only [hrun, if_neg hnonneg]
  rfl

/-- {lit}`sys_yield`. -/
theorem Inv.sysYield (h : Inv L R safe k) (frame : SyscallFrame) :
    Inv L R safe (k.sysYield frame).2.1 := by
  obtain ⟨code, k', context, hrun, hyield⟩ := sysYield_eq h.zero_notMem h.holding.cr3 frame
  have hinv := h.schedule (ProcessContext.ofWords frame.words) .yield
  rw [hrun] at hinv
  rw [hyield]
  exact hinv

/-! ## Exit -/

/-- What an exit that switches leaves behind. -/
structure Exited (k k' : Kernel) : Prop where
  pcbs : ∀ p, (k'.pcbs p).pdt = (k.pcbs p).pdt ∧
    (k'.pcbs p).kernelStackBase = (k.pcbs p).kernelStackBase
  pids : ∀ p, (k'.pcbs p).pid = (k.pcbs p).pid
  nextPid : k'.sched.nextPid = k.sched.nextPid
  ready : k.sched.ready.toList.Perm k'.members
  exited : k'.exited = k.exited ++ [k.sched.currentPcb]
  dropped : k'.dropped = k.dropped
  booted : k'.booted = k.booted
  forked : k'.forked = k.forked
  modules : k'.modules = k.modules
  idle : k'.idle = k.idle
  heap : k'.store.heap = k.store.heap
  phys : ∀ f, f ≠ k.dirOf k.sched.currentPcb →
    ByteMemory.BlockEq k.store.mem.phys k'.store.mem.phys f
  slots : ∀ p ∈ k.sched.ready.toList,
    k'.store.mem.slots (k.dirOf p) = k.store.mem.slots (k.dirOf p)
  used : ∀ g, k'.store.mem.pfa.used g = true ↔ k.store.mem.pfa.used g = true ∧
    ¬ Owns (k.store.mem.slots (k.dirOf k.sched.currentPcb)) g
  count : k'.store.mem.pfa.freeCount =
    k.store.mem.pfa.freeCount + k.store.mem.ownedCount (k.dirOf k.sched.currentPcb)

/-- The result of an exit. -/
inductive ExitResult (L : Layout) (R : Nat → Prop) (safe : Prop) (k : Kernel) :
    Nat × Kernel × SyscallFrame → Prop
  | switched {r : Nat} {k' : Kernel} {frame : SyscallFrame} (inv : Inv L R safe k')
      (exited : Exited k k') : ExitResult L R safe k (r, k', frame)
  | idle {r : Nat} {k' : Kernel} {frame : SyscallFrame} (inv : Inv L R safe k')
      (idle : k'.idle = true) (kept : Rescheduled k { k' with idle := k.idle })
      (members : k'.members = k.members) (alone : k.sched.ready.toList = []) :
      ExitResult L R safe k (r, k', frame)

/-- The processes that are left, when the current one has given up its address space. -/
theorem Inv.leave (h : Inv L R safe k) (he : Exited k k')
    (hhold : Holding L R safe k'.current.pdt k.allBlocks (k.sched.ready.toList.map k.dirOf)
      k'.store)
    (htss : k'.tssEsp0 = k'.current.kernelEsp0) : Inv L R safe k' := by
  have hdir : k'.dirOf = k.dirOf := by
    funext p
    simp only [dirOf, (he.pcbs p).1]
  have hblocks : k'.blocks = k.blocks := by
    funext p
    simp only [Kernel.blocks, (he.pcbs p).2]
  -- The process moves from the head of the list to the end of those that have left.
  have hholders : k.holders.Perm k'.holders := by
    unfold holders
    rw [he.exited, he.dropped]
    refine List.Perm.trans ?_ (he.ready.append_right _)
    rw [members, List.append_assoc, List.singleton_append, List.cons_append, ← List.append_assoc,
      ← List.append_assoc]
    exact List.perm_middle.symm
  have hhistory : (k.members ++ k.exited).Perm (k'.members ++ k'.exited) := by
    rw [he.exited]
    refine List.Perm.trans ?_ (he.ready.append_right _)
    rw [members, List.cons_append, ← List.append_assoc]
    exact (List.perm_append_singleton _ _).symm
  refine ⟨?_, fun p hp => ?_, htss, ?_⟩
  · refine ⟨?_, ?_, hhold.pointers, hhold.nonzero, hhold.cr3⟩
    · rw [allDirs, hdir]
      exact hhold.store.perm (he.ready.map _)
    · rw [allBlocks, hblocks]
      exact hhold.blocks.trans (hholders.flatMap_right _)
  · rw [hdir, (he.pcbs p).1]
    exact h.aligned p (List.mem_cons_of_mem _ (he.ready.mem_iff.2 hp))
  · rw [he.booted, he.forked]
    exact hhistory.symm.trans h.history

theorem rescheduled_markTerminated (k : Kernel) : Rescheduled k k.markTerminated := by
  refine ⟨fun p => ?_, fun p => ?_, rfl, rfl, rfl, rfl, rfl, rfl, rfl, rfl⟩ <;>
    rw [markTerminated_pcbs]
  · split
    · rename_i hp
      rw [hp]
      exact ⟨rfl, rfl, rfl⟩
    · exact ⟨rfl, rfl, rfl⟩
  · split
    · rename_i hp
      rw [hp]
      rfl
    · rfl

/-- An exit that switches gives back the address space of the process. -/
theorem sysExit_spec (h : Inv L R safe k) (frame : SyscallFrame) :
    ExitResult L R safe k (k.sysExit frame) := by
  obtain ⟨hpdt, hloaded⟩ := h.loaded
  have hr₁ := rescheduled_markTerminated k
  have h₁ := h.relabel hr₁ rfl rfl rfl
  have hstore₁ : k.markTerminated.store = k.store := rfl
  have hsched₁ : k.markTerminated.sched = k.sched := rfl
  unfold sysExit
  simp only [if_neg h.current_ne]
  generalize k.markTerminated = k₁ at hr₁ h₁ hstore₁ hsched₁ ⊢
  obtain ⟨code, k₂, out, hrun, hr₂, hcases⟩ :=
    schedule_spec h₁.zero_notMem h₁.holding.cr3 (ProcessContext.ofWords frame.words) false .exit
  simp only [hrun]
  have hold : (k₁.pcbs k.sched.currentPcb).pdt = 4096 * k.dirOf k.sched.currentPcb :=
    (hr₁.pcbs _).1.trans hpdt
  rw [hold]
  rcases hcases with ⟨rfl, hstore, htss, hmembers, -, halone⟩ | ⟨rfl, hstore, htss, hperm⟩
  · rw [if_neg (by decide)]
    have hinv := h₁.relabel hr₂ hstore htss hmembers
    have hkept := hr₁.trans hr₂
    refine .idle ⟨hinv.holding, hinv.aligned, hinv.tss, hinv.history⟩ rfl ?_ ?_ ?_
    · exact ⟨hkept.pcbs, hkept.pids, hkept.nextPid, hkept.heap, hkept.modules, rfl, hkept.booted,
        hkept.dropped, hkept.forked, hkept.exited⟩
    · refine hmembers.trans ?_
      rw [members, hsched₁]
      rfl
    · rw [← hsched₁]
      exact halone rfl
  · rw [if_pos (by decide)]
    have hready : k.sched.ready.toList.Perm k₂.members := by
      rw [← hsched₁]
      simpa [candidates] using hperm
    have hnext : k₂.sched.currentPcb ∈ k.sched.ready.toList := hready.mem_iff.2 k₂.current_mem
    have hpcbs : ∀ p, (k₂.pcbs p).pdt = (k.pcbs p).pdt := fun p =>
      (hr₂.pcbs p).1.trans (hr₁.pcbs p).1
    have hcur : k₂.current.pdt = 4096 * k.dirOf k₂.sched.currentPcb :=
      (hpcbs _).trans (h.aligned _ (List.mem_cons_of_mem _ hnext))
    rw [hstore₁, hcur] at hstore
    have hmem : k.dirOf k₂.sched.currentPcb ∈ k.sched.ready.toList.map k.dirOf :=
      List.mem_map_of_mem hnext
    have hloaded₂ := h.holding.updateCr3 (4096 * k.dirOf k₂.sched.currentPcb)
    obtain ⟨hhold, hslots, hphys, hused⟩ := Holding.destroy
      (show Holding L R safe (4096 * k.dirOf k₂.sched.currentPcb) k.allBlocks
        (k.dirOf k.sched.currentPcb :: k.sched.ready.toList.map k.dirOf) _ from hloaded₂) hmem
    have hcount := hloaded₂.store.spaces.freeCount_destroy (d := k.dirOf k.sched.currentPcb)
    simp only at hhold hslots hphys hused hcount
    simp only [withMem, hstore]
    generalize (k.store.mem.updateCr3 (4096 * k.dirOf k₂.sched.currentPcb)).destroyUserSpace
      (4096 * k.dirOf k.sched.currentPcb) = m' at hhold hslots hphys hused hcount ⊢
    have hexited : Exited k { k₂ with
        store := ⟨m', k.store.heap⟩
        exited := k₂.exited ++ [k.sched.currentPcb] } := by
      refine ⟨fun p => ⟨hpcbs p, (hr₂.pcbs p).2.1.trans (hr₁.pcbs p).2.1⟩,
        fun p => (hr₂.pids p).trans (hr₁.pids p), hr₂.nextPid.trans hr₁.nextPid, hready, ?_,
        hr₂.dropped.trans hr₁.dropped, hr₂.booted.trans hr₁.booted, hr₂.forked.trans hr₁.forked,
        hr₂.modules.trans hr₁.modules, hr₂.idle.trans hr₁.idle, rfl, hphys,
        fun p hp => hslots _ (List.mem_map_of_mem hp), hused, hcount⟩
      change k₂.exited ++ _ = _
      rw [hr₂.exited, hr₁.exited]
    refine .switched (h.leave hexited ?_ htss) hexited
    rw [show ({ k₂ with
      store := ⟨m', k.store.heap⟩
      exited := k₂.exited ++ [k.sched.currentPcb] } : Kernel).current.pdt =
        4096 * k.dirOf k₂.sched.currentPcb from hcur]
    exact hhold

/-! ## Steps -/

/-- {lit}`sys_exec` refuses a path, or goes on with the range of a module. -/
theorem sysExec_cases {kernelByte : Nat → Option UInt8} {frame : SyscallFrame}
    {r : Nat × Kernel × SyscallFrame} (hrun : k.sysExec kernelByte frame = some r) :
    r = (minusOne, k, frame) ∨
      ∃ path a b, copyUserString (k.store.mem.readVirtual kernelByte) frame.ebx execPathMax =
          some (some path) ∧
        moduleLoaderFindModuleByPath k.modules path = some (a, b) ∧ r = k.execModule frame a b := by
  unfold Kernel.sysExec at hrun
  split at hrun
  · cases hrun
  · rw [Option.some.injEq] at hrun
    exact .inl hrun.symm
  · rename_i path hpath
    split at hrun
    · rw [Option.some.injEq] at hrun
      exact .inl hrun.symm
    · rename_i a b hfind
      rw [Option.some.injEq] at hrun
      exact .inr ⟨path, a, b, hpath, hfind, hrun.symm⟩

/-- {lit}`sys_exec` for a path that is read and found. -/
theorem sysExec_eq {kernelByte : Nat → Option UInt8} {frame : SyscallFrame} {path : List UInt8}
    {a b : Nat}
    (hpath : copyUserString (k.store.mem.readVirtual kernelByte) frame.ebx execPathMax =
      some (some path))
    (hfound : moduleLoaderFindModuleByPath k.modules path = some (a, b)) :
    k.sysExec kernelByte frame = some (k.execModule frame a b) := by
  simp only [Kernel.sysExec, hpath, hfound]

/-- {lit}`sys_exec`. -/
theorem Inv.sysExec (h : Inv L R safe k) {kernelByte : Nat → Option UInt8}
    {frame : SyscallFrame} {r : Nat × Kernel × SyscallFrame}
    (hrun : k.sysExec kernelByte frame = some r) : Inv L R safe r.2.1 := by
  rcases sysExec_cases hrun with rfl | ⟨path, a, b, -, -, rfl⟩
  · exact h
  · have hspec := execModule_spec h frame a b
    generalize k.execModule frame a b = s at hspec ⊢
    cases hspec with
    | failed inv aside short => exact inv
    | done inv executed => exact inv

/-- What a trap can leave behind: the processes in some order, with the pointers that they
had; everything but the store and the pid counter as it was; or the work of one of the calls
that replace an image, add a process or end one. -/
inductive TrapEffect (k : Kernel) (t : Trap) (k' : Kernel) : Prop
  | requeued (kept : Rescheduled k k') (members : k'.members.Perm k.members)
  | gaveUp (aside : Aside k k') (counter : k'.sched.nextPid = k.sched.nextPid ∨
      k'.sched.nextPid = k.schedulerAllocatePid.2.sched.nextPid)
  | executed {a b d : Nat} (executed : Executed k a b k' d)
  | forked {frame : SyscallFrame} {child d base : Nat} (call : t.IsFork)
      (forked : Forked k frame k' child d base)
  | exited (call : t.IsExit) (exited : Exited k k')
  | idle (call : t.IsExit) (kept : Rescheduled k { k' with idle := k.idle })
      (members : k'.members = k.members)

/-- A trap keeps the invariant and has one of these effects. -/
theorem Inv.trap_effect (h : Inv L R safe k) {t : Trap} {out : ProcessContext}
    (ht : k.trap L t = some (k', out)) : Inv L R safe k' ∧ TrapEffect k t k' := by
  obtain ⟨-, hcase⟩ := trap_cases ht
  cases hcase with
  | quiet hquiet => exact ⟨h.tick, .requeued (rescheduled_tick k) (List.Perm.refl _)⟩
  | @timer frame code k' context henabled hring hrun =>
      have hinv := h.tick.schedule (frameUserToContext frame) .pit
      have hr := h.tick.rescheduled (frameUserToContext frame) true .pit
      have hmembers := h.tick.schedule_members (frameUserToContext frame) .pit
      rw [hrun] at hinv hr hmembers
      exact ⟨hinv, .requeued ((rescheduled_tick k).trans hr) hmembers⟩
  | plain hring hnumber => exact ⟨h, .requeued (.refl k) (List.Perm.refl _)⟩
  | @exec frame frame' kernelByte r k' hring hnumber hrun =>
      rcases sysExec_cases hrun with heq | ⟨path, a, b, -, -, heq⟩
      · cases heq
        exact ⟨h, .requeued (.refl k) (List.Perm.refl _)⟩
      · have hspec := execModule_spec h frame a b
        rw [← heq] at hspec
        cases hspec with
        | failed inv aside short restored rest =>
            refine ⟨inv, .gaveUp aside (.inl ?_)⟩
            rw [rest]
        | done inv executed => exact ⟨inv, .executed executed⟩
  | @fork frame kernelByte r k' hring hnumber hrun =>
      have hspec := sysFork_spec h frame
      rw [hrun] at hspec
      cases hspec with
      | failed inv aside short spent counter => exact ⟨inv, .gaveUp aside counter⟩
      | forked inv forked => exact ⟨inv, .forked hnumber forked⟩
  | @yield frame frame' kernelByte r k' hring hnumber hrun =>
      obtain ⟨code, k₁, context, hsched, hyield⟩ := sysYield_eq h.zero_notMem h.holding.cr3 frame
      have hinv := h.schedule (ProcessContext.ofWords frame.words) .yield
      have hr := h.rescheduled (ProcessContext.ofWords frame.words) true .yield
      have hmembers := h.schedule_members (ProcessContext.ofWords frame.words) .yield
      rw [hrun, Prod.mk.injEq, Prod.mk.injEq] at hyield
      rw [hsched] at hinv hr hmembers
      rw [hyield.2.1]
      exact ⟨hinv, .requeued hr hmembers⟩
  | @exit frame frame' kernelByte r k' hring hnumber hrun =>
      have hspec := sysExit_spec h frame
      rw [hrun] at hspec
      cases hspec with
      | switched inv exited => exact ⟨inv, .exited hnumber exited⟩
      | idle inv idle kept members alone => exact ⟨inv, .idle hnumber kept members⟩

/-- A trap keeps the invariant. -/
theorem Inv.trap (h : Inv L R safe k) {t : Trap} {out : ProcessContext}
    (ht : k.trap L t = some (k', out)) : Inv L R safe k' :=
  (h.trap_effect ht).1

/-- The module table does not change. -/
theorem Inv.trap_modules (h : Inv L R safe k) {t : Trap} {out : ProcessContext}
    (ht : k.trap L t = some (k', out)) : k'.modules = k.modules := by
  cases (h.trap_effect ht).2 with
  | requeued kept members => exact kept.modules
  | gaveUp aside counter => exact aside.modules
  | executed executed => exact executed.modules
  | forked call forked => exact forked.modules
  | exited call exited => exact exited.modules
  | idle call kept members => exact kept.modules

/-- The page that a user write goes to. -/
structure WritePage (k : Kernel) (va : Nat) (byte : UInt8) (k' : Kernel) (i j f : Nat) : Prop where
  slot : k.store.mem.slots (k.dirOf k.sched.currentPcb) (.page i j) = some f
  frame_ne : f ≠ 0
  kernel : k' = k.withMem { k.store.mem with
    phys := Function.update k.store.mem.phys (4096 * f + va % 4096) byte }
  kept : ∀ g, g ≠ f → ByteMemory.BlockEq k.store.mem.phys k'.store.mem.phys g

/-- A user write goes to a page of the current process. -/
theorem Inv.writePage (h : Inv L R safe k) (hs : safe) {va : Nat} {byte : UInt8}
    (hw : k.userWrite va byte = some k') : ∃ i j f, WritePage k va byte k' i j f := by
  obtain ⟨hpdt, hloaded⟩ := h.loaded
  have hspaces := h.holding.store.spaces
  have hspace := hspaces.space _ hloaded
  have hdir : k.store.mem.cr3 / 4096 = k.dirOf k.sched.currentPcb := by
    rw [h.holding.cr3, hpdt, Nat.mul_div_cancel_left _ (by norm_num)]
  unfold Kernel.userWrite at hw
  simp only [hdir] at hw
  split at hw
  · rename_i hcond
    obtain ⟨-, hva, hpde, hpte⟩ := hcond
    rw [Option.some.injEq] at hw
    simp only [userWritable, beq_iff_eq] at hpde hpte
    -- Entry 768 has no user bit and the entries above are empty.
    have hi : va / 2 ^ 22 < 768 := by
      by_contra hge
      rcases Nat.lt_or_ge 768 (va / 2 ^ 22) with hhi | hlo
      · rw [hspace.high _ hhi (by omega)] at hpde
        cases hpde
      · rw [show va / 2 ^ 22 = 768 by omega, hspace.kernel, hspaces.pde.2] at hpde
        cases hpde
    have hpage : k.store.mem.slots (k.dirOf k.sched.currentPcb)
        (.page (va / 2 ^ 22) (va / 2 ^ 12 % 1024)) = some (k.store.mem.phys.word
          (k.store.mem.phys.word (k.dirOf k.sched.currentPcb) (va / 2 ^ 22) / 4096)
            (va / 2 ^ 12 % 1024) / 4096) := by
      rw [Memory.slots_page _ _ hi (Nat.mod_lt _ (by norm_num)), Memory.pte, if_pos (by omega),
        entryFrame_of_odd (by omega)]
    refine ⟨_, _, _, hpage, fun hz => ?_, hw.symm, fun g hg o ho => ?_⟩
    · rw [hz] at hpage
      exact hspaces.filled hs _ hloaded _ hpage
    · rw [← hw]
      refine (Function.update_of_ne ?_ _ _).symm
      have : va % 4096 < 4096 := Nat.mod_lt _ (by norm_num)
      omega
  · cases hw

/-- A user write keeps the invariant. -/
theorem Inv.userWrite (h : Inv L R safe k) (hs : safe) {va : Nat} {byte : UInt8}
    (hw : k.userWrite va byte = some k') : Inv L R safe k' := by
  obtain ⟨i, j, f, hpage⟩ := h.writePage hs hw
  obtain ⟨-, hloaded⟩ := h.loaded
  have hkept := hpage.kept
  rw [hpage.kernel] at hkept ⊢
  obtain ⟨hstore, -⟩ := h.holding.store.write hloaded hpage.slot hpage.frame_ne hkept
  exact ⟨⟨hstore, h.holding.blocks, h.holding.pointers, h.holding.nonzero, h.holding.cr3⟩,
    h.aligned, h.tss, h.history⟩

/-- The invariant holds along runs. -/
theorem Inv.reachable {k₀ : Kernel} (h₀ : Inv L R (k₀.store.mem.pfa.exhausted = false) k₀)
    (hk : Reachable L k₀ k) : Inv L R (k₀.store.mem.pfa.exhausted = false) k := by
  induction hk with
  | boot => exact h₀
  | trap hk ht ih => exact ih.trap ht
  | write hk hsafe hw ih => exact ih.userWrite hsafe hw

/-- The module table is that of boot along runs. -/
theorem Inv.reachable_modules {k₀ : Kernel}
    (h₀ : Inv L R (k₀.store.mem.pfa.exhausted = false) k₀) (hk : Reachable L k₀ k) :
    k.modules = k₀.modules := by
  induction hk with
  | boot => rfl
  | trap hk ht ih => exact ((h₀.reachable hk).trap_modules ht).trans ih
  | write hk hsafe hw ih =>
      obtain ⟨i, j, f, hpage⟩ := (h₀.reachable hk).writePage hsafe hw
      rw [hpage.kernel]
      exact ih

end Preservation

end Kernel

end SoKernel
