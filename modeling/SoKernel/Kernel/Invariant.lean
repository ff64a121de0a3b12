import SoKernel.Kernel.System
import SoKernel.Memory.ImageBuilding
import SoKernel.Memory.SpaceCloning
import SoKernel.Memory.StoreInvariant

/-!
# The invariant of the running kernel

Every process known to the scheduler has its own control block and kernel stack on the
heap and its own address space; the loaded directory and the kernel stack in the task
segment are those of the current process.

Main results:

- Definition {lit}`Inv`: the invariant.
- Theorem {lit}`schedule_spec`: what a scheduling call keeps and what it may change.
-/

namespace SoKernel

namespace Kernel

/-- The frame of the page directory of a process. -/
def dirOf (k : Kernel) (p : Nat) : Nat :=
  (k.pcbs p).pdt / 4096

/-- The heap blocks of a process: its control block and its kernel stack. -/
def blocks (k : Kernel) (p : Nat) : List (Nat × Nat) :=
  [(p, sizeofPcb), ((k.pcbs p).kernelStackBase, kernelStackSize)]

/-- The processes that hold heap blocks: those the scheduler knows, those whose exit
switched away, and those that boot could not enqueue. -/
def holders (k : Kernel) : List Nat :=
  k.members ++ (k.exited ++ k.dropped)

/-- The blocks of all processes. -/
def allBlocks (k : Kernel) : List (Nat × Nat) :=
  k.holders.flatMap k.blocks

/-- The directories of all processes. -/
def allDirs (k : Kernel) : List Nat :=
  k.members.map k.dirOf

/-- The store has the heap blocks {lit}`bs` and the address spaces {lit}`ds` and no others,
and the directory at {lit}`c` is loaded. -/
structure Holding (L : Layout) (R : Nat → Prop) (safe : Prop) (c : Nat) (bs : List (Nat × Nat))
    (ds : List Nat) (s : Store) : Prop where
  store : StoreOk L R safe s ds
  blocks : s.heap.live.Perm bs
  pointers : (s.heap.live.map Prod.fst).Nodup
  nonzero : ∀ b ∈ s.heap.live, b.1 ≠ 0
  cr3 : s.mem.cr3 = c

/-- The invariant; {lit}`R` are the frames reserved at boot, and {lit}`safe` says that boot
ran out of no frame. -/
structure Inv (L : Layout) (R : Nat → Prop) (safe : Prop) (k : Kernel) : Prop where
  holding : Holding L R safe k.current.pdt k.allBlocks k.allDirs k.store
  aligned : ∀ p ∈ k.members, (k.pcbs p).pdt = 4096 * k.dirOf p
  tss : k.tssEsp0 = k.current.kernelEsp0
  history : (k.members ++ k.exited).Perm (k.booted ++ k.forked)

section Inv

variable {L : Layout} {R : Nat → Prop} {safe : Prop} {k k' : Kernel}

/-- The current process is known to the scheduler. -/
theorem current_mem (k : Kernel) : k.sched.currentPcb ∈ k.members :=
  List.mem_cons_self

/-- The heap blocks of a holder are live. -/
theorem Inv.live (h : Inv L R safe k) {p : Nat} (hp : p ∈ k.holders) :
    (p, sizeofPcb) ∈ k.store.heap.live ∧
      ((k.pcbs p).kernelStackBase, kernelStackSize) ∈ k.store.heap.live := by
  have hsub : ∀ b ∈ k.blocks p, b ∈ k.store.heap.live := fun b hb =>
    h.holding.blocks.mem_iff.2 (List.mem_flatMap.2 ⟨p, hp, hb⟩)
  exact ⟨hsub _ (by simp [Kernel.blocks]), hsub _ (by simp [Kernel.blocks])⟩

/-- No process holds its blocks twice. -/
theorem Inv.holders_nodup (h : Inv L R safe k) : k.holders.Nodup := by
  have hmap := (h.holding.blocks.map Prod.fst).nodup_iff.1 h.holding.pointers
  rw [allBlocks, List.map_flatMap, List.nodup_flatMap] at hmap
  refine hmap.2.imp fun {p q} hdisj hpq => ?_
  subst hpq
  exact hdisj (a := p) (by simp [Kernel.blocks]) (by simp [Kernel.blocks])

/-- The scheduler knows no process twice. -/
theorem Inv.members_nodup (h : Inv L R safe k) : k.members.Nodup :=
  (List.nodup_append.1 h.holders_nodup).1

/-- A process that the scheduler knows holds its blocks. -/
theorem mem_holders {p : Nat} (hp : p ∈ k.members) : p ∈ k.holders :=
  List.mem_append_left _ hp

/-- The directory of the current process is loaded. -/
theorem Inv.loaded (h : Inv L R safe k) :
    k.current.pdt = 4096 * k.dirOf k.sched.currentPcb ∧
      k.dirOf k.sched.currentPcb ∈ k.allDirs :=
  ⟨h.aligned _ k.current_mem, List.mem_map_of_mem k.current_mem⟩

/-- The null pointer is no process. -/
theorem Inv.zero_notMem (h : Inv L R safe k) : 0 ∉ k.members := fun hz =>
  h.holding.nonzero _ (h.live (mem_holders hz)).1 rfl

theorem Inv.current_ne (h : Inv L R safe k) : k.sched.currentPcb ≠ 0 := fun hz =>
  h.zero_notMem (hz ▸ k.current_mem)

/-! ## Scheduling -/

/-- What a scheduling call keeps. -/
structure Rescheduled (k k' : Kernel) : Prop where
  pcbs : ∀ p, (k'.pcbs p).pdt = (k.pcbs p).pdt ∧
    (k'.pcbs p).kernelStackBase = (k.pcbs p).kernelStackBase ∧
    (k'.pcbs p).kernelEsp0 = (k.pcbs p).kernelEsp0
  pids : ∀ p, (k'.pcbs p).pid = (k.pcbs p).pid
  nextPid : k'.sched.nextPid = k.sched.nextPid
  heap : k'.store.heap = k.store.heap
  modules : k'.modules = k.modules
  idle : k'.idle = k.idle
  booted : k'.booted = k.booted
  dropped : k'.dropped = k.dropped
  forked : k'.forked = k.forked
  exited : k'.exited = k.exited

/-- Saving the current process keeps the pointers of the control blocks. -/
theorem saved_pcbs (k : Kernel) (c : ProcessContext) (requeue : Bool) (p : Nat) :
    ((k.saved c requeue).pcbs p).pdt = (k.pcbs p).pdt ∧
      ((k.saved c requeue).pcbs p).kernelStackBase = (k.pcbs p).kernelStackBase ∧
      ((k.saved c requeue).pcbs p).kernelEsp0 = (k.pcbs p).kernelEsp0 := by
  by_cases hp : p = k.sched.currentPcb
  · subst hp
    simp [saved, current]
  · simp [saved, Function.update_of_ne hp]

/-- Saving the current process keeps the pids. -/
theorem saved_pid (k : Kernel) (c : ProcessContext) (requeue : Bool) (p : Nat) :
    ((k.saved c requeue).pcbs p).pid = (k.pcbs p).pid := by
  by_cases hp : p = k.sched.currentPcb
  · subst hp
    simp [saved, current]
  · simp [saved, Function.update_of_ne hp]

/-- Whether or not it switches, a scheduling call keeps the blocks of every process; a
switch loads the directory and the kernel stack of the process it picks. -/
theorem schedule_spec (hz : 0 ∉ k.members) (hcr3 : k.store.mem.cr3 = k.current.pdt)
    (c : ProcessContext) (requeue : Bool) (id : StatContext) :
    ∃ code k' out, k.schedulerScheduleFromContext c requeue id = (code, k', out) ∧
      Rescheduled k k' ∧
      ((code = 0 ∧ k'.store = k.store ∧ k'.tssEsp0 = k.tssEsp0 ∧ k'.members = k.members ∧
          out = c ∧ (requeue = false → k.sched.ready.toList = [])) ∨
        (code = 1 ∧ k'.store = ⟨k.store.mem.updateCr3 k'.current.pdt, k.store.heap⟩ ∧
          k'.tssEsp0 = k'.current.kernelEsp0 ∧ (k.candidates requeue).Perm k'.members)) := by
  have hcases := schedule_cases c requeue id hz
  generalize k.schedulerScheduleFromContext c requeue id = r at hcases
  -- The control block of the current process when nothing was picked.
  have hstay : Rescheduled k ((k.saved c requeue).setPcb k.sched.currentPcb
      { outgoing k.current c requeue k.pitTicks with state := .running }) := by
    refine ⟨fun p => ?_, fun p => ?_, rfl, rfl, rfl, rfl, rfl, rfl, rfl, rfl⟩
    · by_cases hp : p = k.sched.currentPcb
      · subst hp
        simp [setPcb, current]
      · simp only [setPcb, Function.update_of_ne hp]
        exact saved_pcbs k c requeue p
    · by_cases hp : p = k.sched.currentPcb
      · subst hp
        simp [setPcb, current]
      · simp only [setPcb, Function.update_of_ne hp]
        exact saved_pid k c requeue p
  cases hcases with
  | sliceLeft hrr hreq hleft =>
      exact ⟨_, _, _, rfl, ⟨fun _ => ⟨rfl, rfl, rfl⟩, fun _ => rfl, rfl, rfl, rfl, rfl, rfl, rfl, rfl,
        rfl⟩, .inl ⟨rfl, rfl, rfl, rfl, rfl, fun hfalse => by rw [hreq] at hfalse; cases hfalse⟩⟩
  | refused hreq hslice hfull =>
      exact ⟨_, _, _, rfl, hstay, .inl ⟨rfl, rfl, rfl, rfl, rfl, fun hfalse => by
        rw [hreq] at hfalse; cases hfalse⟩⟩
  | alone hreq hempty =>
      exact ⟨_, _, _, rfl, hstay, .inl ⟨rfl, rfl, rfl, rfl, rfl, fun _ => hempty⟩⟩
  | @switch next ready hslice hroom hperm hfifo =>
      refine ⟨_, _, _, rfl, ⟨fun p => ?_, fun p => ?_, rfl, rfl, rfl, rfl, rfl, rfl, rfl, rfl⟩,
        .inr ⟨rfl, ?_, ?_, hperm⟩⟩
      · by_cases hp : p = next
        · subst hp
          simp only [switched, Function.update_self, incoming_fields]
          exact saved_pcbs k c requeue p
        · simp only [switched, Function.update_of_ne hp]
          exact saved_pcbs k c requeue p
      · by_cases hp : p = next
        · subst hp
          simp only [switched, Function.update_self, incoming_fields]
          exact saved_pid k c requeue p
        · simp only [switched, Function.update_of_ne hp]
          exact saved_pid k c requeue p
      · simp only [switched, current, Function.update_self, incoming_fields]
        have hcur := (saved_pcbs k c requeue k.sched.currentPcb).1
        by_cases hdir : ((k.saved c requeue).pcbs next).pdt =
            ((k.saved c requeue).pcbs k.sched.currentPcb).pdt
        · rw [if_neg (by simpa using hdir), hdir, hcur]
          have hsame : k.store.mem.updateCr3 (k.pcbs k.sched.currentPcb).pdt = k.store.mem := by
            rw [Memory.updateCr3, show (k.pcbs k.sched.currentPcb).pdt = k.store.mem.cr3 from hcr3.symm]
          rw [hsame]
          rfl
        · rw [if_pos hdir]
          rfl
      · simp only [switched, current, Function.update_self, incoming_fields]

/-- Processes that keep their pointers keep their heap blocks and directories. -/
theorem Rescheduled.views (h : Rescheduled k k') :
    k'.dirOf = k.dirOf ∧ k'.blocks = k.blocks := by
  constructor
  · funext p
    simp only [dirOf, (h.pcbs p).1]
  · funext p
    simp only [Kernel.blocks, (h.pcbs p).2.1]

/-- The invariant after a call that requeues the current process. -/
theorem Inv.requeue (h : Inv L R safe k) (hr : Rescheduled k k')
    (hout : (k'.store = k.store ∧ k'.tssEsp0 = k.tssEsp0 ∧ k'.members = k.members) ∨
      (k'.store = ⟨k.store.mem.updateCr3 k'.current.pdt, k.store.heap⟩ ∧
        k'.tssEsp0 = k'.current.kernelEsp0 ∧ (k.candidates true).Perm k'.members)) :
    Inv L R safe k' := by
  obtain ⟨hdir, hblocks⟩ := hr.views
  have hperm : k.members.Perm k'.members := by
    rcases hout with ⟨-, -, hsame⟩ | ⟨-, -, hp⟩
    · exact List.Perm.of_eq hsame.symm
    · refine List.Perm.trans ?_ hp
      exact (List.perm_append_singleton _ _).symm
  have hholders : k.holders.Perm k'.holders := by
    unfold holders
    rw [hr.exited, hr.dropped]
    exact hperm.append_right _
  have hstore : StoreOk L R safe k'.store k'.allDirs := by
    unfold allDirs
    rw [hdir]
    refine StoreOk.perm ?_ (hperm.map k.dirOf)
    rcases hout with ⟨hs, -, -⟩ | ⟨hs, -, -⟩
    · rw [hs]
      exact h.holding.store
    · rw [hs]
      exact h.holding.store.updateCr3 _
  refine ⟨⟨hstore, ?_, ?_, ?_, ?_⟩, fun p hp => ?_, ?_, ?_⟩
  · rw [hr.heap, allBlocks, hblocks]
    exact h.holding.blocks.trans (hholders.flatMap_right _)
  · rw [hr.heap]
    exact h.holding.pointers
  · rw [hr.heap]
    exact h.holding.nonzero
  · rcases hout with ⟨hs, -, hm⟩ | ⟨hs, -, -⟩
    · have hcur : k'.sched.currentPcb = k.sched.currentPcb := (List.cons.inj hm).1
      rw [hs, h.holding.cr3, current, current, hcur, (hr.pcbs _).1]
    · rw [hs]
      rfl
  · rw [hdir, (hr.pcbs p).1]
    exact h.aligned p (hperm.mem_iff.2 hp)
  · rcases hout with ⟨-, ht, hm⟩ | ⟨-, ht, -⟩
    · have hcur : k'.sched.currentPcb = k.sched.currentPcb := (List.cons.inj hm).1
      rw [ht, h.tss, current, current, hcur, (hr.pcbs _).2.2]
    · exact ht
  · rw [hr.exited, hr.booted, hr.forked]
    exact (hperm.symm.append_right _).trans h.history

/-! ## In the middle of a call

While a call is under way the store may hold blocks and spaces that belong to no
process yet. -/

section Holding

variable {c : Nat} {bs : List (Nat × Nat)} {ds : List Nat} {s : Store} {m : Memory} {d : Nat}

/-- A block more, or none. -/
theorem Holding.kmalloc (h : Holding L R safe c bs ds s) {n : Nat} (hpos : 1 ≤ n)
    (hn : n ≤ 0x3FF000) :
    (∃ ptr s', s.kmalloc L n = (ptr, s') ∧ ptr ≠ 0 ∧ (∀ b ∈ s.heap.live, b.1 ≠ ptr) ∧
        Holding L R safe c ((ptr, n) :: bs) ds s' ∧
        MemGrown s.mem s'.mem (pageIndex s.heap.heapCurrent) ∧
        s'.heap.live = (ptr, n) :: s.heap.live ∧
        4096 * s'.mem.pfa.freeCount + s'.heap.heapCurrent =
          4096 * s.mem.pfa.freeCount + s.heap.heapCurrent ∧
        s.heap.heapCurrent ≤ s'.heap.heapCurrent ∧
        s'.heap.heapCurrent ≤ s.heap.heapCurrent + 4096 * corePages (unitsFor n) ∧
        (s'.heap.heapCurrent = s.heap.heapCurrent ∨
          s.heap.heapCurrent ≤ L.heapStart + crowded s.heap.live n)) ∨
      (∃ s', s.kmalloc L n = (0, s') ∧ Holding L R safe c bs ds s' ∧
        MemGrown s.mem s'.mem (pageIndex s.heap.heapCurrent) ∧
        (0xC03FF000 < s.heap.heapCurrent + 4096 * corePages (unitsFor n) ∨
          s.mem.pfa.freeCount < corePages (unitsFor n))) := by
  rcases h.store.kmalloc hpos hn with ⟨ptr, s', hrun, hne, hgrew, hlive, hfresh, hcount⟩ |
    ⟨s', hrun, hgrew, hlive, hwhy⟩
  · refine .inl ⟨ptr, s', hrun, hne, hfresh, ⟨hgrew.ok, ?_, ?_, ?_, ?_⟩, hgrew.mem, hlive, hcount⟩
    · rw [hlive]
      exact h.blocks.cons _
    · rw [hlive, List.map_cons, List.nodup_cons]
      refine ⟨fun hmem => ?_, h.pointers⟩
      obtain ⟨b, hb, hptr⟩ := List.mem_map.1 hmem
      exact hfresh b hb hptr
    · rw [hlive]
      intro b hb
      rcases List.mem_cons.1 hb with rfl | hb
      · exact hne
      · exact h.nonzero b hb
    · rw [hgrew.mem.cr3, h.cr3]
  · refine .inr ⟨s', hrun, ⟨hgrew.ok, ?_, ?_, ?_, ?_⟩, hgrew.mem, hwhy⟩
    · rw [hlive]
      exact h.blocks
    · rw [hlive]
      exact h.pointers
    · rw [hlive]
      exact h.nonzero
    · rw [hgrew.mem.cr3, h.cr3]

/-- A block that belongs to no process is released. -/
theorem Holding.kfree {b : Nat × Nat} (h : Holding L R safe c (b :: bs) ds s) :
    Holding L R safe c bs ds (s.kfree b.1) := by
  have hb : b ∈ s.heap.live := h.blocks.mem_iff.2 List.mem_cons_self
  obtain ⟨hstore, hlive⟩ := h.store.kfree hb
  -- Pointers are distinct, so the filter removes this one block.
  have hfilter : (s.heap.live.filter fun e => e.1 ≠ b.1).Perm bs := by
    have hnodup := (h.blocks.map Prod.fst).nodup_iff.1 h.pointers
    simp only [List.map_cons, List.nodup_cons] at hnodup
    refine (h.blocks.filter _).trans ?_
    rw [List.filter_cons_of_neg (by simp), List.filter_eq_self.2]
    intro e he
    have hne : e.1 ≠ b.1 := fun heq => hnodup.1 (List.mem_map.2 ⟨e, he, heq⟩)
    simpa using hne
  refine ⟨hstore, ?_, ?_, ?_, h.cr3⟩
  · rw [hlive]
    exact hfilter
  · rw [hlive]
    exact h.pointers.sublist (List.filter_sublist.map _)
  · rw [hlive]
    intro e he
    exact h.nonzero e (List.mem_of_mem_filter he)

/-- A block that belongs to no process is cleared. -/
theorem Holding.zeroBytes {ptr n : Nat} (h : Holding L R safe c ((ptr, n) :: bs) ds s) :
    Holding L R safe c ((ptr, n) :: bs) ds { s with heap := s.heap.zeroBytes ptr n } ∧
      (s.heap.zeroBytes ptr n).live = s.heap.live ∧
      (s.heap.zeroBytes ptr n).heapCurrent = s.heap.heapCurrent := by
  have hb : (ptr, n) ∈ s.heap.live := h.blocks.mem_iff.2 List.mem_cons_self
  obtain ⟨hstore, hlive, hcur⟩ := h.store.zeroBytes hb
  refine ⟨⟨hstore, ?_, ?_, ?_, h.cr3⟩, hlive, hcur⟩
  · rw [hlive]
    exact h.blocks
  · rw [hlive]
    exact h.pointers
  · rw [hlive]
    exact h.nonzero

/-- A space more. -/
theorem Holding.built (h : Holding L R safe c bs ds s) (hb : Memory.Built s.mem m d []) :
    Holding L R safe c bs (d :: ds) ⟨m, s.heap⟩ :=
  ⟨(h.store.built hb).1, h.blocks, h.pointers, h.nonzero, hb.same.cr3.trans h.cr3⟩

theorem Holding.restored (h : Holding L R safe c bs ds s) (hr : Memory.Restored s.mem m) :
    Holding L R safe c bs ds ⟨m, s.heap⟩ :=
  ⟨(h.store.restored hr).1, h.blocks, h.pointers, h.nonzero, hr.same.cr3.trans h.cr3⟩

theorem Holding.perm (h : Holding L R safe c bs ds s) {ds' : List Nat} (hperm : ds.Perm ds') :
    Holding L R safe c bs ds' s :=
  ⟨h.store.perm hperm, h.blocks, h.pointers, h.nonzero, h.cr3⟩

/-- Another directory is loaded. -/
theorem Holding.updateCr3 (h : Holding L R safe c bs ds s) (pdt : Nat) :
    Holding L R safe pdt bs ds ⟨s.mem.updateCr3 pdt, s.heap⟩ :=
  ⟨h.store.updateCr3 pdt, h.blocks, h.pointers, h.nonzero, rfl⟩

/-- A space beside the loaded one is released: its frames become free, and its directory
is the only frame that is written. -/
theorem Holding.destroy {d' : Nat} (h : Holding L R safe (4096 * d') bs (d :: ds) s)
    (hd' : d' ∈ ds) :
    Holding L R safe (4096 * d') bs ds ⟨s.mem.destroyUserSpace (4096 * d), s.heap⟩ ∧
      (∀ e ∈ ds, (s.mem.destroyUserSpace (4096 * d)).slots e = s.mem.slots e) ∧
      (∀ f, f ≠ d →
        ByteMemory.BlockEq s.mem.phys (s.mem.destroyUserSpace (4096 * d)).phys f) ∧
      (∀ g, (s.mem.destroyUserSpace (4096 * d)).pfa.used g = true ↔
        s.mem.pfa.used g = true ∧ ¬ Owns (s.mem.slots d) g) := by
  have hne : 4096 * d ≠ s.mem.cr3 := by
    rw [h.cr3]
    intro heq
    have hdd : d = d' := by omega
    have howned := h.store.spaces.dir_owned (d := d) List.mem_cons_self
    have hapart := (List.pairwise_cons.1 h.store.spaces.apart).1 d' hd' d howned
    rw [← hdd] at hapart
    exact hapart howned
  obtain ⟨m', hres, hstore, hslots, hcr3, -, -, -, hphys, hused⟩ := h.store.destroy hne
  rw [hres]
  exact ⟨⟨hstore, h.blocks, h.pointers, h.nonzero, hcr3.trans h.cr3⟩, hslots, hphys, hused⟩

/-- The loaded directory is in use. -/
theorem Holding.cr3_not_free (h : Holding L R safe (4096 * d) bs ds s) (hd : d ∈ ds) :
    ¬ s.mem.pfa.Free (s.mem.cr3 / 4096) := by
  have hspaces := h.store.spaces
  rw [h.cr3, Nat.mul_div_cancel_left _ (by norm_num)]
  exact hspaces.not_free hd (.inl (hspaces.dir_owned hd))

/-- The call for a kernel stack: a cleared block more, or none. -/
theorem Holding.allocKernelStack {kk : Kernel} (h : Holding L R safe c bs ds kk.store) (pcb : Nat) :
    (∃ base s', kk.allocKernelStack L pcb = (true, ({ kk with store := s' } : Kernel).setPcb pcb
          { kk.pcbs pcb with
            kernelStackBase := base
            kernelEsp0 := u32 (base + 4096 - 4) }) ∧
        (∀ b ∈ kk.store.heap.live, b.1 ≠ base) ∧
        Holding L R safe c ((base, kernelStackSize) :: bs) ds s' ∧
        MemGrown kk.store.mem s'.mem (pageIndex kk.store.heap.heapCurrent) ∧
        s'.heap.live = (base, kernelStackSize) :: kk.store.heap.live ∧
        4096 * s'.mem.pfa.freeCount + s'.heap.heapCurrent =
          4096 * kk.store.mem.pfa.freeCount + kk.store.heap.heapCurrent ∧
        kk.store.heap.heapCurrent ≤ s'.heap.heapCurrent ∧
        s'.heap.heapCurrent ≤
          kk.store.heap.heapCurrent + 4096 * corePages (unitsFor kernelStackSize) ∧
        (s'.heap.heapCurrent = kk.store.heap.heapCurrent ∨
          kk.store.heap.heapCurrent ≤
            L.heapStart + crowded kk.store.heap.live kernelStackSize)) ∨
      (∃ s', kk.allocKernelStack L pcb = (false, { kk with store := s' }) ∧
        Holding L R safe c bs ds s' ∧
        MemGrown kk.store.mem s'.mem (pageIndex kk.store.heap.heapCurrent) ∧
        (0xC03FF000 < kk.store.heap.heapCurrent + 4096 * corePages (unitsFor kernelStackSize) ∨
          kk.store.mem.pfa.freeCount < corePages (unitsFor kernelStackSize))) := by
  unfold Kernel.allocKernelStack
  rcases h.kmalloc (show 1 ≤ kernelStackSize by decide) (show kernelStackSize ≤ 0x3FF000 by decide)
    with ⟨base, s', hrun, hne, hfresh, hhold, hgrown, hlive, hcount, hbounds⟩ |
      ⟨s', hrun, hhold, hgrown, hwhy⟩
  · obtain ⟨hzeroed, hlive', hcur'⟩ := hhold.zeroBytes
    refine .inl ⟨base, { s' with heap := s'.heap.zeroBytes base kernelStackSize }, ?_, hfresh,
      hzeroed, hgrown, hlive'.trans hlive, ?_, ?_⟩
    · simp only [hrun, if_neg hne]
      rfl
    · rw [hcur']
      exact hcount
    · rw [hcur']
      exact hbounds
  · refine .inr ⟨s', ?_, hhold, hgrown, hwhy⟩
    simp only [hrun, if_true]

end Holding

/-- The directory of the current process is in use. -/
theorem Inv.cr3_not_free (h : Inv L R safe k) :
    ¬ k.store.mem.pfa.Free (k.store.mem.cr3 / 4096) := by
  obtain ⟨hpdt, hloaded⟩ := h.loaded
  have hholding := h.holding
  rw [hpdt] at hholding
  exact hholding.cr3_not_free hloaded

/-- Apart from the store, from control blocks that no process has and from the pid
counter, the kernel is as it was. -/
structure Aside (k k' : Kernel) : Prop where
  pcbs : ∀ p ∈ k.holders, k'.pcbs p = k.pcbs p
  sched : k'.sched = { k.sched with nextPid := k'.sched.nextPid }
  tss : k'.tssEsp0 = k.tssEsp0
  pitTicks : k'.pitTicks = k.pitTicks
  modules : k'.modules = k.modules
  idle : k'.idle = k.idle
  booted : k'.booted = k.booted
  dropped : k'.dropped = k.dropped
  forked : k'.forked = k.forked
  exited : k'.exited = k.exited

/-- A call that gives up keeps the processes. -/
theorem Aside.members (h : Aside k k') : k'.members = k.members := by
  unfold Kernel.members
  rw [h.sched]

/-- The current process keeps its control block. -/
theorem Aside.current (h : Aside k k') : k'.current = k.current := by
  have hcur : k'.sched.currentPcb = k.sched.currentPcb := by rw [h.sched]
  unfold Kernel.current
  rw [hcur]
  exact h.pcbs _ (mem_holders k.current_mem)

/-- The processes keep their directories and their heap blocks. -/
theorem Aside.views (h : Aside k k') :
    k'.allDirs = k.allDirs ∧ k'.allBlocks = k.allBlocks := by
  have hholders : k'.holders = k.holders := by
    unfold holders
    rw [h.members, h.exited, h.dropped]
  constructor
  · unfold allDirs
    rw [h.members]
    refine List.map_congr_left fun p hp => ?_
    rw [dirOf, h.pcbs p (mem_holders hp)]
    rfl
  · unfold allBlocks
    rw [hholders]
    refine List.flatMap_congr fun p hp => ?_
    simp only [Kernel.blocks, h.pcbs p hp]

/-- A call that has given everything back keeps the invariant. -/
theorem Inv.aside (h : Inv L R safe k) (ha : Aside k k')
    (hhold : Holding L R safe k.current.pdt k.allBlocks k.allDirs k'.store) :
    Inv L R safe k' := by
  refine ⟨?_, fun p hp => ?_, ?_, ?_⟩
  · rw [ha.views.1, ha.views.2, ha.current]
    exact hhold
  · rw [ha.members] at hp
    rw [dirOf, ha.pcbs p (mem_holders hp)]
    exact h.aligned p hp
  · rw [ha.tss, h.tss, ha.current]
  · rw [ha.members, ha.exited, ha.booted, ha.forked]
    exact h.history

end Inv

end Kernel

end SoKernel
