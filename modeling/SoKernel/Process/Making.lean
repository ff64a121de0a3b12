import SoKernel.Kernel.Invariant
import SoKernel.Memory.HeapRequests
import SoKernel.Process.Loading

/-!
# Making a process at boot

{lit}`create_pcb` gives everything back when it fails; once it has succeeded,
{lit}`create_pcb_grub_modules` does not fail any more, with or without frames.

Main results:

- Theorem {lit}`createPcb_spec`: a control block, a kernel stack and an empty address space
  more, or nothing more.
- Theorem {lit}`createPcbGrubModules_spec`: a process more, or nothing more, with the pages and
  frames that decide which.
- Theorem {lit}`Made.stack_eq_zero`: when a frame is missing, the stack page is frame 0.
-/

namespace SoKernel

namespace Memory

section Directory

variable {F : Nat → Prop} {safe : Prop} {m : Memory} {d : Nat} {ds : List Nat}

/-- The first step of {lit}`create_pcb`: it does what {lit}`create_user_pdt` does, except that
a failure clears frame 0. -/
theorem allocPageTable_cases (hok : MemOk m) :
    (∃ d m', m.allocPageTable = (4096 * d, m') ∧ d ≠ 0 ∧
        m.createUserPdt = (4096 * d, m'.pokeWord (4096 * d) 768 (m'.pageDirectory 768)) ∧
        (m'.pokeWord (4096 * d) 768 (m'.pageDirectory 768)).pfa.freeFrames <:+ m.pfa.freeFrames) ∨
      (m.pfa.freeCount = 0 ∧ m.allocPageTable = (0, { m with
        pfa := { m.pfa with exhausted := true }
        phys := m.phys.fill 0 4096 0 })) := by
  rcases m.pfa.freeCount_pfaAlloc with ⟨d, hd, halloc, -⟩ | ⟨hzero, halloc⟩
  · obtain ⟨hd0, hd20⟩ := hok.managed (Free.managed hd)
    have htail := m.pfa.pfaAlloc_freeFrames.2
    rw [halloc] at htail
    refine .inl ⟨d, _, allocPageTable_eq hok.closed hd20 halloc, hd0, ?_⟩
    rw [createUserPdt_eq hok.closed hd0 hd20 halloc, pokeWord_eq (m := { m with
      pfa := { m.pfa with bitmap := m.pfa.bitmap.set d }
      phys := m.phys.fill (4096 * d) 4096 0 }) hok.closed hd20, htail]
    exact ⟨rfl, List.tail_suffix _⟩
  · refine .inr ⟨hzero, ?_⟩
    exact allocPageTable_eq (f := 0) hok.closed (by norm_num) halloc

theorem Spaces.mono {safe' : Prop} (h : Spaces F safe m ds) (hs : safe' → safe) :
    Spaces F safe' m ds :=
  ⟨h.ok, h.pde, h.space, h.apart, h.kept, fun h' => h.filled (hs h')⟩

/-- Clearing frame 0 keeps every space. -/
theorem Spaces.clearZero (h : Spaces F safe m ds) :
    Spaces F False { m with
      pfa := { m.pfa with exhausted := true }
      phys := m.phys.fill 0 4096 0 } ds := by
  have hzero : ZeroTable (m.phys.fill 0 4096 0) := by
    intro j hj hodd
    rw [ByteMemory.word_fill_zero (n := 0) m.phys hj] at hodd
    cases hodd
  have hkeep : ∀ d' ∈ ds, _ := fun d' hd' =>
    (h.space d' hd').keepZero { m with
      pfa := { m.pfa with exhausted := true }
      phys := m.phys.fill 0 4096 0 }
      (fun f hf => (ByteMemory.blockEq_fill (n := 0) m.phys hf.1).symm) hzero rfl
      (fun f hf => (h.space d' hd').used f hf)
  refine ⟨⟨h.ok.closed, h.ok.window⟩, h.pde, fun d' hd' => (hkeep d' hd').1, ?_,
    fun f hf => ⟨(h.kept f hf).1, fun d' hd' howns => ?_⟩, fun hfalse => hfalse.elim⟩
  · refine h.apart.imp_of_mem fun {x y} hx hy hxy f hfx hfy => ?_
    obtain ⟨hf0, s, hs⟩ := hfx
    obtain ⟨-, s', hs'⟩ := hfy
    exact hxy f ⟨hf0, s, ((hkeep x hx).2 s f hf0).1 hs⟩ ⟨hf0, s', ((hkeep y hy).2 s' f hf0).1 hs'⟩
  · obtain ⟨hf0, s, hs⟩ := howns
    exact (h.kept f hf).2 d' hd' ⟨hf0, s, ((hkeep d' hd').2 s f hf0).1 hs⟩

/-- Giving back a directory that has no entries yet. -/
theorem Spaces.freeDir (h : Spaces F safe m (d :: ds))
    (hempty : ∀ s, m.slots d s = if s = .dir then some d else none) :
    Spaces F safe (m.pfaFree (4096 * d)) ds := by
  have howns := h.dir_owned List.mem_cons_self
  have hman := (h.owned List.mem_cons_self howns).2.1
  have hapart := (List.pairwise_cons.1 h.apart).1
  have hother : ∀ d' ∈ ds, ∀ f, Owns (m.slots d') f → f ≠ d := by
    rintro d' hd' f hf rfl
    exact hapart d' hd' f howns hf
  have hused : ∀ f, f ≠ d → m.pfa.used f = true → (m.pfa.pfaFree (4096 * d)).used f = true := by
    intro f hfd hf
    rw [used_pfaFree_frame, hf]
    simp [Ne.symm hfd]
  have htail := h.tail
  suffices hkeep : Spaces F safe (m.pfaFree (4096 * d)) ds ∧
      ∀ d' ∈ ds, (m.pfaFree (4096 * d)).slots d' = m.slots d' from hkeep.1
  refine htail.keep ⟨h.ok.closed, ?_⟩ (fun _ _ f _ => ByteMemory.BlockEq.refl _ _) rfl
    (fun d' hd' f hf => ?_) fun f hf => ?_
  · exact ⟨by rw [pfaFree, Pfa.pfaFree_startFrame]; exact h.ok.window.1,
      by rw [pfaFree, Pfa.pfaFree_totalFrames]; exact h.ok.window.2⟩
  · obtain ⟨hu, hm, -⟩ := htail.owned hd' hf
    refine ⟨hused f (hother d' hd' f hf) hu, ?_, ?_⟩
    · rw [pfaFree, Pfa.pfaFree_startFrame]
      exact hm.1
    · rw [pfaFree, Pfa.pfaFree_totalFrames]
      exact hm.2
  · refine ⟨hused f ?_ (h.kept f hf).1, (htail.kept f hf).2⟩
    rintro rfl
    exact (h.kept f hf).2 f List.mem_cons_self howns

end Directory

end Memory

namespace Kernel

/-- No call of {lit}`pfa_alloc` has failed so far. -/
def Plenty (s : Store) : Prop :=
  s.mem.pfa.exhausted = false

/-- Beside the processes that have heap blocks, only the store and the pid counter may
have changed. -/
structure Beside (k k' : Kernel) : Prop where
  pcbs : ∀ b ∈ k.store.heap.live, k'.pcbs b.1 = k.pcbs b.1
  sched : k'.sched = { k.sched with nextPid := k'.sched.nextPid }
  pid : k'.sched.nextPid = k.sched.nextPid ∨
    k'.sched.nextPid = k.schedulerAllocatePid.2.sched.nextPid
  rest : k' = { k with store := k'.store, sched := k'.sched, pcbs := k'.pcbs }

/-- The control block of a process that {lit}`create_pcb` has made. -/
def madePcb (pid d base : Nat) : Pcb :=
  { freshPcb pid (4096 * d) with
    kernelStackBase := base
    kernelEsp0 := u32 (base + 4096 - 4) }

/-- Memory or kernel heap does not suffice for a control block, a directory and a kernel
stack. -/
def MakeShort (s : Store) : Prop :=
  0xC03FF000 < s.heap.heapCurrent + 4096 * 3 ∨ s.mem.pfa.freeCount < 4

/-- The pages by which the heap grows for a control block. -/
def pcbPages (L : Layout) (s : Store) : Nat :=
  s.heap.growthFor L sizeofPcb

/-- The pages by which the heap then grows for a kernel stack. -/
def stackPages (L : Layout) (s : Store) : Nat :=
  s.heap.growthAfter L sizeofPcb kernelStackSize

/-- The request for a control block fails. -/
def NoPcb (L : Layout) (s : Store) : Prop :=
  CannotGrow s.heap.heapCurrent s.mem.pfa.freeCount (pcbPages L s)

/-- The request for a kernel stack fails, when there is a control block and a directory. -/
def NoStack (L : Layout) (s : Store) : Prop :=
  CannotGrow (s.heap.heapCurrent + 4096 * pcbPages L s)
    (s.mem.pfa.freeCount - pcbPages L s - 1) (stackPages L s)

/-- How {lit}`create_pcb` fails.  Only the failure to get a directory leaves a trace. -/
inductive MakeFails (L : Layout) (s s' : Store) : Prop
  | pcb (short : NoPcb L s) (grown : GrownSince L s.mem (fun _ => False) 1023 s'.mem)
  | directory (pcb : ¬ NoPcb L s) (short : s.mem.pfa.freeCount = pcbPages L s)
      (phys : s'.mem.phys = s.mem.phys.fill 0 4096 0)
  | stack (pcb : ¬ NoPcb L s) (frame : pcbPages L s < s.mem.pfa.freeCount) (short : NoStack L s)
      (grown : GrownSince L s.mem (fun _ => False) 1023 s'.mem)

/-- When {lit}`create_pcb` succeeds. -/
structure MakeFits (L : Layout) (s : Store) : Prop where
  pcb : ¬ NoPcb L s
  frame : pcbPages L s < s.mem.pfa.freeCount
  stack : ¬ NoStack L s

section Making

variable {L : Layout} {R : Nat → Prop} {c : Nat} {bs : List (Nat × Nat)} {ds : List Nat}
  {k kk : Kernel}

theorem pcbPages_le (L : Layout) (s : Store) : pcbPages L s ≤ 1 := by
  have hpages : corePages (unitsFor sizeofPcb) = 1 := by decide
  unfold pcbPages Heap.growthFor
  rw [hpages]
  split <;> omega

theorem stackPages_le (L : Layout) (s : Store) : stackPages L s ≤ 2 := by
  have hpages : corePages (unitsFor kernelStackSize) = 2 := by decide
  unfold stackPages Heap.growthAfter
  rw [hpages]
  split <;> omega

/-- What {lit}`create_pcb` does in a kernel whose store has the blocks {lit}`bs` and the
spaces {lit}`ds`. -/
inductive Making (L : Layout) (R : Nat → Prop) (c : Nat) (bs : List (Nat × Nat)) (ds : List Nat)
    (k : Kernel) : Nat × Kernel → Prop
  | failed {k' : Kernel} (hold : Holding L R (Plenty k'.store) c bs ds k'.store)
      (beside : Beside k k') (short : MakeShort k.store)
      (fails : MakeFails L k.store k'.store) : Making L R c bs ds k (0, k')
  | made {k' : Kernel} {pcb d base : Nat} (pcb_ne : pcb ≠ 0)
      (fresh : ∀ b ∈ k.store.heap.live, b.1 ≠ pcb)
      (hold : Holding L R (Plenty k'.store) c
        ((base, kernelStackSize) :: (pcb, sizeofPcb) :: bs) (d :: ds) k'.store)
      (beside : Beside k k') (pcb_eq : k'.pcbs pcb = madePcb k.sched.nextPid d base)
      (pid_eq : k'.sched.nextPid = k.schedulerAllocatePid.2.sched.nextPid)
      (empty : ∀ s, k'.store.mem.slots d s = if s = .dir then some d else none)
      (count : 4096 * k'.store.mem.pfa.freeCount + k'.store.heap.heapCurrent + 4096 =
        4096 * k.store.mem.pfa.freeCount + k.store.heap.heapCurrent)
      (grown : k.store.heap.heapCurrent ≤ k'.store.heap.heapCurrent ∧
        k'.store.heap.heapCurrent ≤ k.store.heap.heapCurrent + 4096 * 3)
      (spent : k'.store.mem.pfa.exhausted = true →
        k.store.mem.pfa.exhausted = true ∨ k'.store.mem.pfa.freeCount = 0)
      (free : k.store.mem.pfa.Free d)
      (kept : ∀ f, f ≠ d → ByteMemory.BlockEq k.store.mem.phys k'.store.mem.phys f)
      (taken : ∀ f, k.store.mem.pfa.used f = true → k'.store.mem.pfa.used f = true)
      (window : k'.store.mem.pfa.startFrame = k.store.mem.pfa.startFrame ∧
        k'.store.mem.pfa.totalFrames = k.store.mem.pfa.totalFrames)
      (fits : MakeFits L k.store)
      (current : k'.store.heap.heapCurrent =
        k.store.heap.heapCurrent + 4096 * (pcbPages L k.store + stackPages L k.store))
      (frees : k'.store.mem.pfa.freeFrames <:+ k.store.mem.pfa.freeFrames) :
      Making L R c bs ds k (pcb, k')

theorem Holding.mono {safe safe' : Prop} {s : Store} (h : Holding L R safe c bs ds s)
    (hs : safe' → safe) : Holding L R safe' c bs ds s :=
  ⟨⟨h.store.heap, h.store.spaces.mono hs, h.store.stray, h.store.loaded⟩, h.blocks, h.pointers,
    h.nonzero, h.cr3⟩

theorem Plenty.of_grown {s s' : Store} {lo : Nat} (hg : MemGrown s.mem s'.mem lo)
    (h : Plenty s') : Plenty s := by
  unfold Plenty at *
  by_contra hexh
  have := hg.exhausted (by simpa using hexh)
  rw [h] at this
  cases this

/-- A directory that has no entries yet is given back. -/
theorem Holding.freeDir {safe : Prop} {s : Store} {d : Nat}
    (h : Holding L R safe c bs (d :: ds) s)
    (hempty : ∀ x, s.mem.slots d x = if x = .dir then some d else none) :
    Holding L R safe c bs ds ⟨s.mem.pfaFree (4096 * d), s.heap⟩ := by
  refine ⟨h.store.withMem (h.store.spaces.freeDir hempty) ?_ ?_ rfl h.store.stray h.store.loaded,
    h.blocks, h.pointers, h.nonzero, h.cr3⟩
  · rw [Memory.pfaFree, Pfa.pfaFree_startFrame]
  · rw [Memory.pfaFree, Pfa.pfaFree_totalFrames]

/-- A failed allocation that has cleared frame 0. -/
theorem Holding.clearZero {safe : Prop} {s : Store} (h : Holding L R safe c bs ds s) :
    Holding L R False c bs ds ⟨{ s.mem with
      pfa := { s.mem.pfa with exhausted := true }
      phys := s.mem.phys.fill 0 4096 0 }, s.heap⟩ := by
  have hstore : StoreOk L R False s ds :=
    ⟨h.store.heap, h.store.spaces.mono False.elim, h.store.stray, h.store.loaded⟩
  exact ⟨hstore.withMem h.store.spaces.clearZero rfl rfl rfl h.store.stray h.store.loaded, h.blocks,
    h.pointers, h.nonzero, h.cr3⟩

/-- The kernel {lit}`kk` in which {lit}`create_pcb` has its control block. -/
structure HasPcb (L : Layout) (R : Nat → Prop) (c : Nat) (bs : List (Nat × Nat)) (ds : List Nat)
    (k kk : Kernel) (pcb : Nat) : Prop where
  pcb_ne : pcb ≠ 0
  fresh : ∀ b ∈ k.store.heap.live, b.1 ≠ pcb
  beside : Beside k kk
  hold : Holding L R (Plenty kk.store) c ((pcb, sizeofPcb) :: bs) ds kk.store
  mem : MemGrown k.store.mem kk.store.mem (pageIndex k.store.heap.heapCurrent)
  pid_eq : kk.sched.nextPid = k.schedulerAllocatePid.2.sched.nextPid
  count : 4096 * kk.store.mem.pfa.freeCount + kk.store.heap.heapCurrent =
    4096 * k.store.mem.pfa.freeCount + k.store.heap.heapCurrent
  fits : ¬ NoPcb L k.store
  current : kk.store.heap.heapCurrent = k.store.heap.heapCurrent + 4096 * pcbPages L k.store
  stack : kk.store.heap.growthFor L kernelStackSize = stackPages L k.store
  grown : GrownSince L k.store.mem (fun _ => False) (pageIndex kk.store.heap.heapCurrent)
    kk.store.mem

/-- The kernel {lit}`kk` in which {lit}`create_pcb` has its control block and the directory in
frame {lit}`d`. -/
structure HasDirectory (L : Layout) (R : Nat → Prop) (c : Nat) (bs : List (Nat × Nat))
    (ds : List Nat) (k kk : Kernel) (pcb d : Nat) : Prop where
  pcb_ne : pcb ≠ 0
  fresh : ∀ b ∈ k.store.heap.live, b.1 ≠ pcb
  beside : Beside k kk
  hold : Holding L R (Plenty kk.store) c ((pcb, sizeofPcb) :: bs) (d :: ds) kk.store
  pcb_eq : kk.pcbs pcb = freshPcb k.sched.nextPid (4096 * d)
  pid_eq : kk.sched.nextPid = k.schedulerAllocatePid.2.sched.nextPid
  empty : ∀ s, kk.store.mem.slots d s = if s = .dir then some d else none
  count : 4096 * kk.store.mem.pfa.freeCount + kk.store.heap.heapCurrent + 4096 =
    4096 * k.store.mem.pfa.freeCount + k.store.heap.heapCurrent
  spent : kk.store.mem.pfa.exhausted = true → k.store.mem.pfa.exhausted = true
  free : k.store.mem.pfa.Free d
  kept : ∀ f, f ≠ d → ByteMemory.BlockEq k.store.mem.phys kk.store.mem.phys f
  taken : ∀ f, k.store.mem.pfa.used f = true → kk.store.mem.pfa.used f = true
  window : kk.store.mem.pfa.startFrame = k.store.mem.pfa.startFrame ∧
    kk.store.mem.pfa.totalFrames = k.store.mem.pfa.totalFrames
  fits : ¬ NoPcb L k.store
  current : kk.store.heap.heapCurrent = k.store.heap.heapCurrent + 4096 * pcbPages L k.store
  stack : kk.store.heap.growthFor L kernelStackSize = stackPages L k.store
  grown : GrownSince L k.store.mem (Owns (kk.store.mem.slots d))
    (pageIndex kk.store.heap.heapCurrent) kk.store.mem
  frees : kk.store.mem.pfa.freeFrames <:+ k.store.mem.pfa.freeFrames

/-- When the call for a kernel stack succeeds, and what the heap takes for it. -/
theorem Holding.allocKernelStack_growth {safe : Prop} (h : Holding L R safe c bs ds kk.store)
    (pcb : Nat) :
    ((kk.allocKernelStack L pcb).1 = false ∧
        CannotGrow kk.store.heap.heapCurrent kk.store.mem.pfa.freeCount
          (kk.store.heap.growthFor L kernelStackSize)) ∨
      ((kk.allocKernelStack L pcb).1 = true ∧
        ¬ CannotGrow kk.store.heap.heapCurrent kk.store.mem.pfa.freeCount
          (kk.store.heap.growthFor L kernelStackSize) ∧
        (kk.allocKernelStack L pcb).2.store.heap.heapCurrent =
          kk.store.heap.heapCurrent + 4096 * kk.store.heap.growthFor L kernelStackSize) := by
  obtain ⟨ts, hr⟩ := h.store.heap
  have hgrowth := hr.kmalloc_growth (show 1 ≤ kernelStackSize by decide)
    (show kernelStackSize ≤ 0x3FF000 by decide)
  unfold Kernel.allocKernelStack
  rcases h.kmalloc (show 1 ≤ kernelStackSize by decide) (show kernelStackSize ≤ 0x3FF000 by decide)
    with ⟨base, s', hrun, hne, -, hhold, -⟩ | ⟨s', hrun, -⟩
  · rw [hrun] at hgrowth
    obtain ⟨hzero, -⟩ | ⟨-, hfits, hcur⟩ := hgrowth
    · exact absurd hzero hne
    · simp only [hrun, if_neg hne]
      exact .inr ⟨trivial, hfits, hhold.zeroBytes.2.2.trans hcur⟩
  · rw [hrun] at hgrowth
    obtain ⟨-, hshort⟩ | ⟨hne, -⟩ := hgrowth
    · simp only [hrun, if_true]
      exact .inl ⟨trivial, hshort⟩
    · exact absurd rfl hne

/-- The last part: the kernel stack. -/
theorem createStack_spec {pcb d : Nat} (h : HasDirectory L R c bs ds k kk pcb d) :
    Making L R c bs ds k (kk.createStack L pcb (4096 * d)) := by
  have hpages : corePages (unitsFor kernelStackSize) = 2 := by decide
  have hpcb := pcbPages_le L k.store
  have hstack := stackPages_le L k.store
  have hcount := h.count
  have hcurrent := h.current
  have hgrowth := h.hold.allocKernelStack_growth pcb
  -- One frame is the directory's.
  have hleft : kk.store.mem.pfa.freeCount = k.store.mem.pfa.freeCount - pcbPages L k.store - 1 ∧
      pcbPages L k.store < k.store.mem.pfa.freeCount := by
    omega
  rw [h.stack, hcurrent, hleft.1] at hgrowth
  unfold createStack
  rcases h.hold.allocKernelStack pcb with ⟨base, s, hrun, -, hhold', hg, -, hcount', hlo, hhi, -⟩ |
    ⟨s, hrun, hhold', hg, hwhy⟩
  · rw [hrun] at hgrowth
    obtain ⟨hfalse, -⟩ | ⟨-, hfits, hcur⟩ := hgrowth
    · cases hfalse
    change s.heap.heapCurrent = _ at hcur
    simp only [hrun, if_neg (show ¬ true = false by decide)]
    rw [hpages] at hhi
    refine .made h.pcb_ne h.fresh (hhold'.mono (Plenty.of_grown hg))
      ⟨fun b hmem => ?_, h.beside.sched, h.beside.pid, ?_⟩
      ?_ h.pid_eq ?_ ?_ ?_ ?_ h.free ?_ (fun f hf => hg.keeps f (h.taken f hf))
      ⟨hg.startFrame.trans h.window.1, hg.totalFrames.trans h.window.2⟩ ⟨h.fits, hleft.2, hfits⟩ ?_
      (hg.frees.trans h.frees)
    · rw [setPcb_pcbs, Function.update_of_ne (h.fresh b hmem)]
      exact h.beside.pcbs b hmem
    · rw [h.beside.rest]
      rfl
    · rw [setPcb_pcbs, Function.update_self, h.pcb_eq]
      rfl
    · change ∀ x, s.mem.slots d x = _
      unfold Memory.slots
      rw [hg.phys]
      exact h.empty
    · change 4096 * s.mem.pfa.freeCount + s.heap.heapCurrent + 4096 = _
      omega
    · change k.store.heap.heapCurrent ≤ s.heap.heapCurrent ∧ s.heap.heapCurrent ≤ _
      omega
    · intro hexh
      rcases hg.spent hexh with hexh | hdry
      · exact .inl (h.spent hexh)
      · exact .inr hdry
    · change ∀ f, _ → ByteMemory.BlockEq _ s.mem.phys f
      rw [hg.phys]
      exact h.kept
    · change s.heap.heapCurrent = _
      omega
  · rw [hrun] at hgrowth
    obtain ⟨-, hshort⟩ | ⟨htrue, -⟩ := hgrowth
    swap
    · cases htrue
    simp only [hrun, if_true]
    rw [hpages] at hwhy
    have hslots : ∀ x, s.mem.slots d x = if x = .dir then some d else none := by
      unfold Memory.slots
      rw [hg.phys]
      exact h.empty
    have hfreed := ((hhold'.mono (Plenty.of_grown hg)).freeDir hslots).kfree
    have hd := (h.hold.store.spaces.space d List.mem_cons_self).dir_ne
    refine .failed (hfreed.mono fun hp => ?_) ⟨h.beside.pcbs, h.beside.sched, h.beside.pid, ?_⟩ ?_
      (.stack h.fits hleft.2 hshort ?_)
    · change (s.mem.pfa.pfaFree (4096 * d)).exhausted = false at hp
      rw [Pfa.pfaFree_exhausted] at hp
      exact hp
    · rw [h.beside.rest]
      rfl
    · unfold MakeShort
      omega
    · exact ((h.grown.kmalloc_failed h.hold.store hg).slots hg.phys).freeDir hslots hd

/-- The part from the page directory on. -/
theorem createSpace_spec {pcb : Nat} (h : HasPcb L R c bs ds k kk pcb) :
    Making L R c bs ds k (kk.createSpace L pcb k.sched.nextPid) := by
  have hspaces := h.hold.store.spaces
  have hcount := h.count
  have hcurrent := h.current
  unfold createSpace
  rcases Memory.allocPageTable_cases hspaces.ok with
    ⟨d, m, hrun, hd, hcreate, hfrees⟩ | ⟨hzero, hrun⟩
  · rcases Memory.createUserPdt_cases hspaces.ok hspaces.pde.1 with
      ⟨d', m', hcreate', hbuilt, hslots, hcount', hexh, hkept⟩ | ⟨-, hcreate'⟩
    · rw [hcreate, Prod.mk.injEq] at hcreate'
      obtain ⟨hdd, hm⟩ := hcreate'
      have hdd : d = d' := by omega
      subst hdd
      simp only [hrun, if_neg (show ¬ 4096 * d = 0 by omega)]
      have hwith : (kk.withMem m).withMem ((kk.withMem m).store.mem.pokeWord (4096 * d) 768
          ((kk.withMem m).store.mem.pageDirectory 768)) = kk.withMem m' := by
        rw [← hm]
        rfl
      rw [hwith]
      refine createStack_spec ⟨h.pcb_ne, h.fresh, ⟨fun b hmem => ?_, h.beside.sched, h.beside.pid, ?_⟩,
        (h.hold.built hbuilt).mono fun hp => ?_, ?_, h.pid_eq, hslots, ?_, ?_,
        Memory.free_of_grown h.mem hbuilt.dir_free, ?_, ?_,
        ⟨hbuilt.same.startFrame.trans h.mem.startFrame,
          hbuilt.same.totalFrames.trans h.mem.totalFrames⟩, h.fits, hcurrent, h.stack,
        h.grown.built hbuilt, ?_⟩
      · rw [setPcb_pcbs, Function.update_of_ne (h.fresh b hmem)]
        exact h.beside.pcbs b hmem
      · rw [h.beside.rest]
        rfl
      · change m'.pfa.exhausted = false at hp
        rw [hexh] at hp
        exact hp
      · rw [setPcb_pcbs, Function.update_self]
      · change 4096 * m'.pfa.freeCount + kk.store.heap.heapCurrent + 4096 = _
        omega
      · intro hp
        change m'.pfa.exhausted = true at hp
        rw [hexh] at hp
        rcases h.mem.spent hp with hp | hdry
        · exact hp
        · omega
      · intro f hf
        rw [← h.mem.phys]
        exact hkept f hf
      · intro f hf
        exact (hbuilt.used f).2 (.inl (h.mem.keeps f hf))
      · rw [hm] at hfrees
        exact hfrees.trans h.mem.frees
    · rw [hcreate, Prod.mk.injEq] at hcreate'
      exact absurd hcreate'.1 (by omega)
  · simp only [hrun, if_true]
    have hfreed := h.hold.clearZero.kfree
    have hpcb := pcbPages_le L k.store
    refine .failed (hfreed.mono fun hp => ?_) ⟨h.beside.pcbs, h.beside.sched, h.beside.pid, ?_⟩ ?_
      (.directory h.fits (by omega) ?_)
    · exact absurd hp (by simp [Plenty, withMem, Store.kfree])
    · rw [h.beside.rest]
      rfl
    · unfold MakeShort
      omega
    · change kk.store.mem.phys.fill 0 4096 0 = _
      rw [h.mem.phys]

/-- {lit}`create_pcb` makes a control block, a kernel stack and an empty address space, or
gives everything back. -/
theorem createPcb_spec (h : Holding L R (Plenty k.store) c bs ds k.store) :
    Making L R c bs ds k (k.createPcb L) := by
  have hpages : corePages (unitsFor sizeofPcb) = 1 := by decide
  have hsize : 1 ≤ sizeofPcb ∧ sizeofPcb ≤ 0x3FF000 := by decide
  obtain ⟨ts, hr⟩ := h.store.heap
  have hgrowth := hr.kmalloc_growth hsize.1 hsize.2
  have hlarge : 4096 * corePages (unitsFor sizeofPcb) ≤ 8 * unitsFor kernelStackSize := by decide
  have hstack := hr.growthFor_kmalloc hsize.1 hsize.2 hlarge
  have hrefl := GrownSince.refl L k.store.mem (pageIndex k.store.heap.heapCurrent)
  unfold createPcb
  rcases h.kmalloc hsize.1 hsize.2 with
    ⟨pcb, s, hrun, hne, hfresh, hhold, hg, -, hcount, hlo, -⟩ | ⟨s, hrun, hhold, hg, hwhy⟩
  · rw [hrun] at hgrowth hstack
    obtain ⟨hzero, -⟩ | ⟨-, hfits, hcur⟩ := hgrowth
    · exact absurd hzero hne
    simp only [hrun, if_neg hne]
    exact createSpace_spec ⟨hne, hfresh, ⟨fun _ _ => rfl, rfl, .inr rfl, rfl⟩,
      hhold.mono (Plenty.of_grown hg), hg, rfl, hcount, hfits, hcur, hstack hne,
      hrefl.kmalloc h.store hhold.store hg hcount hlo⟩
  · rw [hrun] at hgrowth
    obtain ⟨-, hshort⟩ | ⟨hne, -⟩ := hgrowth
    swap
    · exact absurd rfl hne
    simp only [hrun, if_true]
    rw [hpages] at hwhy
    refine .failed (hhold.mono (Plenty.of_grown hg)) ⟨fun _ _ => rfl, rfl, .inl rfl, rfl⟩ ?_
      (.pcb hshort (hrefl.kmalloc_failed h.store hg))
    unfold MakeShort
    omega

/-- The frames that {lit}`create_pcb_grub_modules` draws, 0 where there was none. -/
structure BootFrames where
  table : Nat
  page0 : Nat
  page1 : Nat
  stackTable : Nat
  stack : Nat

/-- The frames in the order in which they are drawn. -/
def BootFrames.list (x : BootFrames) : List Nat :=
  [x.table, x.page0, x.page1, x.stackTable, x.stack]

/-- What {lit}`create_pcb_grub_modules` puts behind the directory in frame {lit}`d`. -/
structure BootSpace (m₀ m : Memory) (modStart modEnd d : Nat) (x : BootFrames) : Prop where
  drawn : Pfa.Drawn m₀.pfa x.list m.pfa
  frames : Memory.SixFrames d x.table x.page0 x.page1 x.stackTable x.stack
  loaded : Memory.Loaded m₀.phys m.phys d x.table x.page0 x.page1 x.stackTable x.stack
  empty : ∀ i, i < 1024 → i ≠ 768 → ¬ m₀.phys.word d i % 2 = 1
  bytes : x.page0 ≠ 0 → (∀ i, i < Memory.copySize modStart modEnd →
      (modStart + i) / 4096 ∉ [d, x.table, x.page0]) →
    ∀ o, o < 4096 → m.phys (4096 * x.page0 + o) =
      if o < Memory.copySize modStart modEnd then m₀.phys (modStart + o) else 0

/-- What {lit}`create_pcb_grub_modules` leaves behind when it makes a process: {lit}`m₀` is
the memory with the empty directory in frame {lit}`d`, before the space is filled. -/
structure Made (L : Layout) (R : Nat → Prop) (c : Nat) (bs : List (Nat × Nat)) (ds : List Nat)
    (k : Kernel) (modStart modEnd : Nat) (k' : Kernel) (m₀ : Memory) (pcb d base : Nat)
    (x : BootFrames) : Prop where
  pcb_ne : pcb ≠ 0
  fresh : ∀ b ∈ k.store.heap.live, b.1 ≠ pcb
  hold : Holding L R (Plenty k'.store) c ((base, kernelStackSize) :: (pcb, sizeofPcb) :: bs)
    (d :: ds) k'.store
  beside : Beside k k'
  pcb_eq : k'.pcbs pcb = { madePcb k.sched.nextPid d base with esp := 0xBFFFFFFB }
  pid_eq : k'.sched.nextPid = k.schedulerAllocatePid.2.sched.nextPid
  space : BootSpace m₀ k'.store.mem modStart modEnd d x
  count : 4096 * m₀.pfa.freeCount + k'.store.heap.heapCurrent + 4096 =
    4096 * k.store.mem.pfa.freeCount + k.store.heap.heapCurrent
  grown : k.store.heap.heapCurrent ≤ k'.store.heap.heapCurrent ∧
    k'.store.heap.heapCurrent ≤ k.store.heap.heapCurrent + 4096 * 3
  spent : m₀.pfa.exhausted = true → k.store.mem.pfa.exhausted = true ∨ m₀.pfa.freeCount = 0
  free : k.store.mem.pfa.Free d
  kept : ∀ f, f ≠ d → ByteMemory.BlockEq k.store.mem.phys m₀.phys f
  taken : ∀ f, k.store.mem.pfa.used f = true → m₀.pfa.used f = true
  window : m₀.pfa.startFrame = k.store.mem.pfa.startFrame ∧
    m₀.pfa.totalFrames = k.store.mem.pfa.totalFrames
  fits : MakeFits L k.store
  current : k'.store.heap.heapCurrent =
    k.store.heap.heapCurrent + 4096 * (pcbPages L k.store + stackPages L k.store)
  readable : ¬ Memory.ReadFaults modStart modEnd
  frees : m₀.pfa.freeFrames <:+ k.store.mem.pfa.freeFrames

/-- The result of {lit}`create_pcb_grub_modules`. -/
inductive GrubMaking (L : Layout) (R : Nat → Prop) (c : Nat) (bs : List (Nat × Nat))
    (ds : List Nat) (k : Kernel) (modStart modEnd : Nat) : Option (Nat × Kernel) → Prop
  | fault (high : 0x400000 < modStart + Memory.copySize modStart modEnd)
      (fits : MakeFits L k.store) (faults : Memory.ReadFaults modStart modEnd) :
      GrubMaking L R c bs ds k modStart modEnd none
  | failed {k' : Kernel} (hold : Holding L R (Plenty k'.store) c bs ds k'.store)
      (beside : Beside k k') (short : MakeShort k.store)
      (fails : MakeFails L k.store k'.store) :
      GrubMaking L R c bs ds k modStart modEnd (some (0, k'))
  | made {k' : Kernel} {m₀ : Memory} {pcb d base : Nat} {x : BootFrames}
      (made : Made L R c bs ds k modStart modEnd k' m₀ pcb d base x) :
      GrubMaking L R c bs ds k modStart modEnd (some (pcb, k'))

/-- The entries of an empty space. -/
theorem empty_entries {m : Memory} {d : Nat}
    (hempty : ∀ s, m.slots d s = if s = .dir then some d else none) (i : Nat) (hi : i < 1024)
    (hs : i ≠ 768) : ¬ m.phys.word d i % 2 = 1 := by
  intro hodd
  have hslot := hempty (.table i)
  rw [Memory.slots, slotFrame_table hi hs, entryFrame_of_odd hodd] at hslot
  cases hslot

/-- The new process with its space filled. -/
theorem Holding.load {s : Store} {d : Nat} {x : BootFrames} {p : Pfa} {phys : ByteMemory}
    (h : Holding L R (Plenty s) c bs (d :: ds) s)
    (hempty : ∀ i, i < 1024 → i ≠ 768 → ¬ s.mem.phys.word d i % 2 = 1)
    (hdraw : Pfa.Drawn s.mem.pfa x.list p)
    (hload : Memory.Loaded s.mem.phys phys d x.table x.page0 x.page1 x.stackTable x.stack) :
    Holding L R (Plenty ⟨{ s.mem with pfa := p, phys := phys }, s.heap⟩) c bs (d :: ds)
      ⟨{ s.mem with pfa := p, phys := phys }, s.heap⟩ := by
  have hspaces := h.store.spaces.load hempty hdraw hload
  have hplenty : Plenty ⟨{ s.mem with pfa := p, phys := phys }, s.heap⟩ →
      Plenty s ∧ 0 ∉ x.list := by
    intro hp
    have hnot : ¬ (s.mem.pfa.exhausted = true ∨ 0 ∈ x.list) := by
      rw [← hdraw.failed]
      exact Bool.eq_false_iff.1 hp
    rw [not_or] at hnot
    exact ⟨Bool.eq_false_iff.2 hnot.1, hnot.2⟩
  have hstore : StoreOk L R (Plenty s ∧ 0 ∉ x.list) s (d :: ds) :=
    ⟨h.store.heap, h.store.spaces.mono And.left, h.store.stray, h.store.loaded⟩
  suffices hheld : Holding L R (Plenty s ∧ 0 ∉ x.list) c bs (d :: ds)
      ⟨{ s.mem with pfa := p, phys := phys }, s.heap⟩ from hheld.mono hplenty
  exact ⟨hstore.withMem hspaces hdraw.startFrame hdraw.totalFrames rfl h.store.stray
    h.store.loaded, h.blocks, h.pointers, h.nonzero, h.cr3⟩

/-- {lit}`create_pcb_grub_modules` makes a process, or changes nothing but the heap's size. -/
theorem createPcbGrubModules_spec (h : Holding L R (Plenty k.store) c bs ds k.store)
    (modStart modEnd : Nat) :
    GrubMaking L R c bs ds k modStart modEnd (k.createPcbGrubModules L modStart modEnd) := by
  have hspec := createPcb_spec h
  unfold createPcbGrubModules
  generalize k.createPcb L = r at hspec ⊢
  cases hspec with
  | failed hold beside short fails =>
      simp only [if_true]
      exact .failed hold beside short fails
  | @made k' pcb d base pcb_ne fresh hold beside pcb_eq pid_eq empty count grown spent free kept
      taken window fits current frees =>
      simp only [if_neg pcb_ne]
      have hspaces := hold.store.spaces
      have hd := (hspaces.ok.managed (hspaces.owned List.mem_cons_self
        (hspaces.dir_owned List.mem_cons_self)).2.1).2
      have hpdt : (k'.pcbs pcb).pdt = 4096 * d := by rw [pcb_eq]; rfl
      rw [hpdt]
      obtain ⟨a, b, c', e, g, p, hdraw, hcases⟩ :=
        Memory.loadModule_cases hspaces.ok hd modStart modEnd
      have hfr := hspaces.sixFrames hdraw
      have hentries := empty_entries empty
      rcases hcases with ⟨hnone, hfaults⟩ | ⟨hread, buf, hsome, hzero, hbytes⟩
      · rw [hnone]
        exact .fault hfaults.2 fits hfaults
      · rw [hsome, Option.map_some]
        obtain ⟨hload, hpage⟩ := Memory.loaded_phys hfr k'.store.mem.phys buf
        refine .made (x := ⟨a, b, c', e, g⟩) ⟨pcb_ne, fresh,
          hold.load (x := ⟨a, b, c', e, g⟩) hentries hdraw hload, ⟨fun y hy => ?_, beside.sched,
            beside.pid, ?_⟩, ?_, pid_eq, ⟨hdraw, hfr, hload, hentries, ?_⟩, count, grown, spent, free,
            kept, taken, window, fits, current, hread, frees⟩
        · rw [setPcb_pcbs, Function.update_of_ne (fresh y hy)]
          exact beside.pcbs y hy
        · rw [beside.rest]
          rfl
        · rw [setPcb_pcbs, Function.update_self, pcb_eq]
          rfl
        · intro hb hapart o ho
          refine (hpage hb o ho).trans ?_
          by_cases hsize : o < Memory.copySize modStart modEnd
          · have hout := hapart o hsize
            simp only [List.mem_cons, List.not_mem_nil, or_false, not_or] at hout
            rw [if_pos hsize, hbytes (fun i hi => ?_) o hsize]
            · exact (Memory.tablePhys_blockEq hout.1 hout.2.1 _ rfl).symm
            · have hout' := hapart i hi
              simp only [List.mem_cons, List.not_mem_nil, or_false, not_or] at hout'
              exact hout'.2.2
          · rw [if_neg hsize, hzero o (by omega) ho]

end Making

/-! ## The frames of a process made by boot -/

section BootWords

variable {L : Layout} {R : Nat → Prop} {c : Nat} {bs : List (Nat × Nat)} {ds : List Nat}
  {k k' : Kernel} {m₀ m : Memory} {modStart modEnd pcb d base : Nat} {x : BootFrames}
  {phys phys' : ByteMemory}

/-- The entries through which the processor finds the frames. -/
structure BootWords (phys : ByteMemory) (d : Nat) (x : BootFrames) : Prop where
  table : phys.word d 0 = 4096 * x.table + 7
  page0 : phys.word x.table 0 = 4096 * x.page0 + 7
  page1 : phys.word x.table 1 = 4096 * x.page1 + 7
  stackTable : phys.word d 767 = 4096 * x.stackTable + 7
  stack : phys.word x.stackTable 1023 = 4096 * x.stack + 7

theorem BootSpace.words (h : BootSpace m₀ m modStart modEnd d x) (ht : x.table ≠ 0) :
    BootWords m.phys d x := by
  have htable := h.loaded.table ht
  constructor
  · exact h.loaded.dir 0 (by norm_num)
  · exact htable 0 (by norm_num)
  · exact htable 1 (by norm_num)
  · exact h.loaded.dir 767 (by norm_num)
  · exact h.loaded.stackTable 1023 (by norm_num)

/-- The entries are in three frames. -/
theorem BootWords.kept (h : BootWords phys d x) (hdir : ByteMemory.BlockEq phys phys' d)
    (htable : ByteMemory.BlockEq phys phys' x.table)
    (hstack : ByteMemory.BlockEq phys phys' x.stackTable) : BootWords phys' d x := by
  constructor
  · rw [← hdir.word (by norm_num), h.table]
  · rw [← htable.word (by norm_num), h.page0]
  · rw [← htable.word (by norm_num), h.page1]
  · rw [← hdir.word (by norm_num), h.stackTable]
  · rw [← hstack.word (by norm_num), h.stack]

theorem entryFrame_flags_seven (n : Nat) : entryFrame (4096 * n + 7) = some n := by
  rw [entryFrame_of_odd (by omega)]
  congr 1
  omega

theorem slots_page_of_words {i j t f : Nat} (hi : i < 768) (hj : j < 1024)
    (hdir : m.phys.word d i = 4096 * t + 7) (htable : m.phys.word t j = 4096 * f + 7) :
    m.slots d (.page i j) = some f := by
  rw [Memory.slots_page _ _ hi hj, Memory.pte, if_pos (by omega), hdir,
    show (4096 * t + 7) / 4096 = t by omega, htable, entryFrame_flags_seven]

/-- Every frame has its place. -/
theorem BootWords.slots (h : BootWords m.phys d x) : ∀ f ∈ d :: x.list,
    ∃ s, m.slots d s = some f := by
  have htable : ∀ i t, i < 768 → m.phys.word d i = 4096 * t + 7 →
      m.slots d (.table i) = some t := by
    intro i t hi hdir
    rw [Memory.slots_table _ _ hi, hdir, entryFrame_flags_seven]
  intro f hf
  simp only [BootFrames.list, List.mem_cons, List.not_mem_nil, or_false] at hf
  rcases hf with rfl | rfl | rfl | rfl | rfl | rfl
  · exact ⟨.dir, rfl⟩
  · exact ⟨.table 0, htable 0 _ (by norm_num) h.table⟩
  · exact ⟨.page 0 0, slots_page_of_words (by norm_num) (by norm_num) h.table h.page0⟩
  · exact ⟨.page 0 1, slots_page_of_words (by norm_num) (by norm_num) h.table h.page1⟩
  · exact ⟨.table 767, htable 767 _ (by norm_num) h.stackTable⟩
  · exact ⟨.page 767 1023, slots_page_of_words (by norm_num) (by norm_num) h.stackTable h.stack⟩

/-- Making a process leaves the frames alone that are in use. -/
theorem Made.kept_used (h : Made L R c bs ds k modStart modEnd k' m₀ pcb d base x) {f : Nat}
    (hf : f ≠ 0) (hused : k.store.mem.pfa.used f = true) :
    ByteMemory.BlockEq k.store.mem.phys k'.store.mem.phys f := by
  have hdir : f ≠ d := by
    rintro rfl
    rw [h.free.2.2] at hused
    cases hused
  have hdrawn : ∀ y ∈ x.list, f ≠ y := by
    rintro y hy rfl
    have hfree := (h.space.drawn.fresh f hy hf).2.2
    rw [h.taken f hused] at hfree
    cases hfree
  exact (h.kept f hdir).trans (h.space.loaded.others f hdir (hdrawn _ (by simp [BootFrames.list]))
    (hdrawn _ (by simp [BootFrames.list])) (hdrawn _ (by simp [BootFrames.list])))

/-- The six frames of a process are distinct. -/
theorem Made.frames_nodup (h : Made L R c bs ds k modStart modEnd k' m₀ pcb d base x)
    (hz : 0 ∉ x.list) : (d :: x.list).Nodup := by
  refine h.space.frames.distinct.imp_of_mem fun {y z} _ hmem hyz => ?_
  refine (hyz fun hz0 => ?_).2
  subst hz0
  rcases List.mem_cons.1 hmem with hd | hmem
  · exact h.space.frames.dir_ne hd.symm
  · exact hz hmem

/-- Draws fail to the end. -/
theorem Made.stack_eq_zero (h : Made L R c bs ds k modStart modEnd k' m₀ pcb d base x) (hz : 0 ∈ x.list) :
    x.stack = 0 := by
  obtain ⟨-, -, -, -, -, hab, hbc, hce, heg⟩ := h.space.frames.facts
  simp only [BootFrames.list, List.mem_cons, List.not_mem_nil, or_false] at hz
  rcases hz with hz | hz | hz | hz | hz
  · exact heg (hce (hbc (hab hz.symm)))
  · exact heg (hce (hbc hz.symm))
  · exact heg (hce hz.symm)
  · exact heg hz.symm
  · exact hz.symm

/-- With four frames left, the last one of a new process is frame 0. -/
theorem Made.stack_zero (h : Made L R c bs ds k modStart modEnd k' m₀ pcb d base x)
    (hframes : k.store.mem.pfa.freeCount ≤ 5) :
    k'.store.mem.slots d (.page 767 1023) = some 0 := by
  have hz : 0 ∈ x.list := by
    have hcount := h.count
    have hgrown := h.grown
    have hfive : x.list.length = 5 := rfl
    rw [h.space.drawn.zero_mem_iff]
    omega
  rw [← h.stack_eq_zero hz]
  exact slots_page_of_words (by norm_num) (by norm_num) (h.space.loaded.dir 767 (by norm_num))
    (h.space.loaded.stackTable 1023 (by norm_num))

/-- A live block lies in the heap, with its header. -/
theorem Holding.block_le {safe : Prop} {s : Store} (h : Holding L R safe c bs ds s)
    {b : Nat × Nat} (hb : b ∈ s.heap.live) : L.heapStart + (b.2 + 8) ≤ s.heap.heapCurrent := by
  obtain ⟨ts, hheap⟩ := h.store.heap
  have hok := hheap.ok_of_live hb
  obtain ⟨t, ht, howner, -⟩ := hok.exists_tile hb
  have hroom := (hok.room t ht _ howner).1
  have hbounds := hok.shape.tiled.bounds ht
  omega

end BootWords

end Kernel

end SoKernel
