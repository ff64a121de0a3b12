import SoKernel.Process.Loaders

/-!
# Creating a process, or nothing

{lit}`create_pcb_grub_modules` makes two requests to the heap and takes six frames.
{lit}`create_pcb` looks at the result of each of its calls, at that of the page directory only
after it has cleared the table; the five frames behind the directory are not looked at.  This
module says for which states of the two allocators a call gives everything back or makes a
process with six frames of its own.

Main results:

- Theorem {lit}`Made.zero_notMem_iff`: the free frames that the five draws need.
- Theorem {lit}`creation_all_or_nothing_iff`: when a call does all or nothing.
-/

namespace SoKernel

namespace Memory

/-- User mode reaches the frame {lit}`f` under the directory in frame {lit}`d`. -/
def UserMaps (m : Memory) (d f : Nat) : Prop :=
  ∃ i j, i < 1024 ∧ j < 1024 ∧ userReadable (m.phys.word d i) ∧
    userReadable (m.phys.word (m.phys.word d i / 4096) j) ∧
    m.phys.word (m.phys.word d i / 4096) j / 4096 = f

theorem odd_of_userReadable {e : Nat} (h : userReadable e) : e % 2 = 1 := by
  simp only [userReadable, Bool.or_eq_true, beq_iff_eq] at h
  omega

/-- What user mode reaches is in the slots: the entries from 768 on are closed to it. -/
theorem Spaces.slot_of_userMaps {F : Nat → Prop} {safe : Prop} {m : Memory} {ds : List Nat}
    {d f : Nat} (h : Spaces F safe m ds) (hd : d ∈ ds) (hmaps : m.UserMaps d f) :
    ∃ s, m.slots d s = some f := by
  obtain ⟨i, j, hi, hj, hpde, hpte, hf⟩ := hmaps
  have hspace := h.space d hd
  have hlow : i < 768 := by
    by_contra hge
    by_cases hkernel : i = 768
    · rw [hkernel, hspace.kernel] at hpde
      simp only [userReadable, h.pde.2] at hpde
      cases hpde
    · rw [hspace.high i (by omega) hi] at hpde
      cases hpde
  refine ⟨.page i j, ?_⟩
  rw [slots_page _ _ hlow hj, pte, if_pos (odd_of_userReadable hpde),
    entryFrame_of_odd (odd_of_userReadable hpte), hf]

end Memory

namespace Kernel

/-- The contents of physical memory replaced. -/
def withPhys (k : Kernel) (phys : ByteMemory) : Kernel :=
  k.withMem { k.store.mem with phys := phys }

/-- Nothing is left of a call but pages of the heap. -/
structure GivenBack (L : Layout) (k k' : Kernel) : Prop where
  blocks : k'.store.heap.live.Perm k.store.heap.live
  kept : ∀ f, k.store.mem.pfa.used f = true → k'.store.mem.pfa.used f = true
  grown : ∀ f, k'.store.mem.pfa.used f = true →
    k.store.mem.pfa.used f = true ∨ HeapFrame L k'.store.mem f

/-- The places of a process made at boot: the directory, the table and the two pages of its
code, the table and the page of its stack. -/
def bootSlots : List Slot :=
  [.dir, .table 0, .page 0 0, .page 0 1, .table 767, .page 767 1023]

/-- The places of a new process have distinct frames that were free. -/
def NewFrames (k k' : Kernel) (pcb : Nat) : Prop :=
  ∃ fs : List Nat, bootSlots.map (k'.store.mem.slots (k'.dirOf pcb)) = fs.map some ∧ fs.Nodup ∧
    ∀ f ∈ fs, f ≠ 0 ∧ k.store.mem.pfa.Free f

/-- {lit}`create_pcb_grub_modules` returns 0 and gives everything back, or returns a process
with frames of its own; frame 0 is as it was and is not given to user mode. -/
def AllOrNothing (L : Layout) (k : Kernel) (modStart modEnd : Nat) : Prop :=
  ∃ pcb k', k.createPcbGrubModules L modStart modEnd = some (pcb, k') ∧
    (if pcb = 0 then GivenBack L k k'
      else NewFrames k k' pcb ∧ ¬ k'.store.mem.UserMaps (k'.dirOf pcb) 0) ∧
    ByteMemory.BlockEq k.store.mem.phys k'.store.mem.phys 0

/-- There is no memory for a control block; or there is a frame for the directory as well and
no memory for a kernel stack; or there are frames for everything and the module can be read. -/
def CreationFits (L : Layout) (s : Store) (modStart modEnd : Nat) : Prop :=
  NoPcb L s ∨ pcbPages L s < s.mem.pfa.freeCount ∧
    (NoStack L s ∨ pcbPages L s + stackPages L s + 6 ≤ s.mem.pfa.freeCount ∧
      ¬ Memory.ReadFaults modStart modEnd)

section Creation

variable {L : Layout} {R : Nat → Prop} {safe : Prop} {c : Nat} {bs : List (Nat × Nat)}
  {ds : List Nat} {k k' : Kernel} {m₀ : Memory} {modStart modEnd pcb d base : Nat} {x : BootFrames}

/-- The two allocators are all that a call needs, whatever memory holds. -/
theorem holding_of_store {s : Store} (h : StoreOk L R safe s ds) (phys : ByteMemory) (safe' : Prop) :
    Holding L R safe' s.mem.cr3 s.heap.live [] ⟨{ s.mem with phys := phys }, s.heap⟩ := by
  obtain ⟨ts, hr⟩ := h.heap
  have hspaces : Memory.Spaces (fun f => R f ∨ HeapFrame L s.mem f) safe'
      { s.mem with phys := phys } [] :=
    ⟨⟨h.spaces.ok.closed, h.spaces.ok.window⟩, h.spaces.pde, by simp, List.Pairwise.nil,
      fun f hf => ⟨(h.spaces.kept f hf).1, by simp⟩, by simp⟩
  have hheap := hr.withMem (m := { s.mem with phys := phys }) rfl rfl rfl
    fun f hf => (h.spaces.kept f (.inr hf)).1
  refine ⟨⟨⟨ts, hheap⟩, hspaces, h.stray, h.loaded⟩, List.Perm.refl _, ?_, fun b hb => ?_, rfl⟩
  · rcases hr with hok | ⟨hf, -⟩
    · exact hok.live_nodup
    · rw [hf.live]
      exact List.nodup_nil
  · obtain ⟨t, -, -, hbt⟩ := (hr.ok_of_live hb).exists_tile hb
    omega

/-! ## A process that was made -/

/-- The draws behind the directory succeed when there are five frames for them. -/
theorem Made.zero_notMem_iff (h : Made L R c bs ds k modStart modEnd k' m₀ pcb d base x) :
    0 ∉ x.list ↔
      pcbPages L k.store + stackPages L k.store + 6 ≤ k.store.mem.pfa.freeCount := by
  have hcount := h.count
  have hcurrent := h.current
  have hfive : x.list.length = 5 := rfl
  rw [h.space.drawn.zero_mem_iff]
  omega

theorem Made.dirOf_eq (h : Made L R c bs ds k modStart modEnd k' m₀ pcb d base x) :
    k'.dirOf pcb = d := by
  rw [dirOf, h.pcb_eq]
  exact Nat.mul_div_cancel_left d (by norm_num)

/-- The frames at the places of a new process. -/
theorem Made.bootSlots_eq (h : Made L R c bs ds k modStart modEnd k' m₀ pcb d base x)
    (hz : 0 ∉ x.list) : bootSlots.map (k'.store.mem.slots d) = (d :: x.list).map some := by
  have htable : x.table ≠ 0 := fun ht => hz (by simp [BootFrames.list, ht])
  have hwords := h.space.words htable
  have hslot : ∀ i t, i < 768 → k'.store.mem.phys.word d i = 4096 * t + 7 →
      k'.store.mem.slots d (.table i) = some t := by
    intro i t hi hdir
    rw [Memory.slots_table _ _ hi, hdir, entryFrame_flags_seven]
  simp only [bootSlots, BootFrames.list, List.map_cons, List.map_nil, List.cons.injEq, and_true]
  refine ⟨rfl, hslot 0 _ (by norm_num) hwords.table, ?_, ?_,
    hslot 767 _ (by norm_num) hwords.stackTable, ?_⟩
  · exact slots_page_of_words (by norm_num) (by norm_num) hwords.table hwords.page0
  · exact slots_page_of_words (by norm_num) (by norm_num) hwords.table hwords.page1
  · exact slots_page_of_words (by norm_num) (by norm_num) hwords.stackTable hwords.stack

/-- A frame that is drawn was free. -/
theorem Made.drawn_free (h : Made L R c bs ds k modStart modEnd k' m₀ pcb d base x) {f : Nat}
    (hf : f ∈ x.list) (hf0 : f ≠ 0) : k.store.mem.pfa.Free f := by
  have hfree := h.space.drawn.fresh f hf hf0
  refine ⟨h.window.1 ▸ hfree.1, h.window.2 ▸ hfree.2.1, ?_⟩
  by_contra hused
  have htaken := h.taken f (by simpa using hused)
  rw [hfree.2.2] at htaken
  cases htaken

/-- The frames of a new process were free. -/
theorem Made.free_before (h : Made L R c bs ds k modStart modEnd k' m₀ pcb d base x)
    (hz : 0 ∉ x.list) : ∀ f ∈ d :: x.list, f ≠ 0 ∧ k.store.mem.pfa.Free f := by
  intro f hf
  rcases List.mem_cons.1 hf with rfl | hf
  · exact ⟨h.space.frames.dir_ne, h.free⟩
  · have hf0 : f ≠ 0 := fun hf0 => hz (hf0 ▸ hf)
    exact ⟨hf0, h.drawn_free hf hf0⟩

/-- A process with all its frames. -/
theorem Made.allOrNothing (h : Made L R c bs ds k modStart modEnd k' m₀ pcb d base x)
    (hrun : k.createPcbGrubModules L modStart modEnd = some (pcb, k')) (hz : 0 ∉ x.list) :
    AllOrNothing L k modStart modEnd := by
  have hne : ∀ y ∈ x.list, (0 : Nat) ≠ y := fun y hy hy0 => hz (hy0 ▸ hy)
  have hdir := h.space.frames.dir_ne
  refine ⟨pcb, k', hrun, ?_, ?_⟩
  · rw [if_neg h.pcb_ne, NewFrames, h.dirOf_eq]
    refine ⟨⟨d :: x.list, h.bootSlots_eq hz, h.frames_nodup hz, h.free_before hz⟩, fun hmaps => ?_⟩
    obtain ⟨s, hs⟩ := h.hold.store.spaces.slot_of_userMaps List.mem_cons_self hmaps
    rcases h.space.loaded.mem_of_slot k'.store.mem h.space.frames h.space.empty hs with hd0 | hmem
    · exact hdir hd0.symm
    · exact hz hmem
  · exact (h.kept 0 hdir.symm).trans (h.space.loaded.others 0 hdir.symm
      (hne _ (by simp [BootFrames.list])) (hne _ (by simp [BootFrames.list]))
      (hne _ (by simp [BootFrames.list])))

/-- A process with a draw that failed has frame 0 at one of its places. -/
theorem Made.not_newFrames (h : Made L R c bs ds k modStart modEnd k' m₀ pcb d base x)
    (hz : 0 ∈ x.list) : ¬ NewFrames k k' pcb := by
  rintro ⟨fs, hslots, -, hfs⟩
  rw [h.dirOf_eq] at hslots
  -- Draws fail to the end, so the last one did.
  have hstack : k'.store.mem.slots d (.page 767 1023) = some 0 := by
    rw [← h.stack_eq_zero hz]
    exact slots_page_of_words (by norm_num) (by norm_num) (h.space.loaded.dir 767 (by norm_num))
      (h.space.loaded.stackTable 1023 (by norm_num))
  have hmem : some 0 ∈ fs.map some := by
    rw [← hslots, List.mem_map]
    exact ⟨.page 767 1023, by simp [bootSlots], hstack⟩
  obtain ⟨f, hf, hf0⟩ := List.mem_map.1 hmem
  exact (hfs f hf).1 (Option.some.inj hf0)

/-! ## A call that failed -/

/-- A call that returns 0 after the heap has grown.  Frame 0 is never a free frame. -/
theorem GrownSince.allOrNothing (h : GrownSince L k.store.mem (fun _ => False) 1023 k'.store.mem)
    (hrun : k.createPcbGrubModules L modStart modEnd = some (0, k'))
    (hblocks : k'.store.heap.live.Perm k.store.heap.live) (hok : Memory.MemOk k.store.mem) :
    AllOrNothing L k modStart modEnd := by
  refine ⟨0, k', hrun, ?_, h.phys 0 fun hfree => ?_⟩
  · rw [if_pos rfl]
    exact ⟨hblocks, h.keeps, fun f hf => (h.takes f hf).imp_right fun hnew => hnew.resolve_left id⟩
  · exact (hok.managed (Memory.Free.managed hfree)).1 rfl

/-- A call that fails for want of a directory has cleared frame 0. -/
theorem not_blockEq_fill : ¬ ByteMemory.BlockEq (fun _ => 1)
    (ByteMemory.fill (fun _ => 1) 0 4096 0) 0 := by
  intro heq
  have hbyte := heq 0 (by norm_num)
  exact absurd hbyte (by decide)

/-- A call gives everything back or makes a process with six frames of its own exactly when one
of the requests that are looked at in time fails, or every request is met and the module can be
read. -/
theorem creation_all_or_nothing_iff (h : StoreOk L R safe k.store ds) (modStart modEnd : Nat) :
    (∀ phys, AllOrNothing L (k.withPhys phys) modStart modEnd) ↔
      CreationFits L k.store modStart modEnd := by
  constructor
  · intro hall
    -- Frame 0 with a byte that clearing it would change.
    obtain ⟨pcb, k', hrun, hresult, hzero⟩ := hall fun _ => 1
    have hspec := createPcbGrubModules_spec (k := k.withPhys fun _ => 1)
      (holding_of_store h (fun _ => 1) _) modStart modEnd
    rw [hrun] at hspec
    cases hspec with
    | failed hold beside short fails =>
        cases fails with
        | pcb short => exact .inl short
        | directory pcb short phys =>
            rw [phys] at hzero
            exact absurd hzero not_blockEq_fill
        | stack pcb frame short => exact .inr ⟨frame, .inl short⟩
    | @made k' m₀ pcb d base x made =>
        rw [if_neg made.pcb_ne] at hresult
        have hz : 0 ∉ x.list := fun hz => made.not_newFrames hz hresult.1
        exact .inr ⟨made.fits.frame, .inr ⟨made.zero_notMem_iff.1 hz, made.readable⟩⟩
  · intro hfits phys
    have hholding := holding_of_store h phys (Plenty (k.withPhys phys).store)
    have hspec := createPcbGrubModules_spec (k := k.withPhys phys) hholding modStart modEnd
    have hfits' : CreationFits L (k.withPhys phys).store modStart modEnd := hfits
    have hok := hholding.store.spaces.ok
    generalize hrun : (k.withPhys phys).createPcbGrubModules L modStart modEnd = r at hspec
    cases hspec with
    | fault high fits faults =>
        rcases hfits' with hno | ⟨-, hno | ⟨-, hread⟩⟩
        · exact absurd hno fits.pcb
        · exact absurd hno fits.stack
        · exact absurd faults hread
    | failed hold beside short fails =>
        cases fails with
        | pcb short grown => exact GrownSince.allOrNothing grown hrun hold.blocks hok
        | directory pcb short =>
            rcases hfits' with hno | ⟨hframe, -⟩
            · exact absurd hno pcb
            · omega
        | stack pcb frame short grown => exact GrownSince.allOrNothing grown hrun hold.blocks hok
    | made made =>
        rcases hfits' with hno | ⟨-, hno | ⟨hframes, -⟩⟩
        · exact absurd hno made.fits.pcb
        · exact absurd hno made.fits.stack
        · exact made.allOrNothing hrun (made.zero_notMem_iff.2 hframes)

end Creation

/-! ## A boot that runs out of frames -/

/-- A boot with two modules that leave 13 frames free. -/
def starvedBoot : BootInfo where
  mods := [⟨4096 * 526, 4096 * 527, some [98]⟩, ⟨4096 * 527, 2 ^ 26, some [97]⟩]
  phys := fun _ => 0
  kernelBytes := fun _ => 0
  policy := .rr
  quantum := 1
  mods_count := by norm_num
  mods_hi := by
    intro mod hmod
    simp only [List.mem_cons, List.not_mem_nil, or_false] at hmod
    rcases hmod with rfl | rfl
    · norm_num
    · norm_num

theorem freeCount_starvedBoot : (bootPfa sampleLayout starvedBoot.mods).freeCount = 13 := by
  obtain ⟨hstart, htotal, -⟩ := bootPfa_frame sampleLayout starvedBoot.mods
  have halign : pageAlignUp sampleLayout.kernelPhysicalEnd = 0x200000 := by decide
  rw [halign] at hstart
  apply le_antisymm
  · -- What is free lies below the modules.
    have hsub : (Finset.Ico (bootPfa sampleLayout starvedBoot.mods).startFrame
        (bootPfa sampleLayout starvedBoot.mods).totalFrames).filter
          (fun f => (bootPfa sampleLayout starvedBoot.mods).used f = false) ⊆
        Finset.Ico 513 526 := by
      intro f hf
      rw [Finset.mem_filter, Finset.mem_Ico] at hf
      rw [Finset.mem_Ico]
      refine ⟨by omega, ?_⟩
      by_contra hge
      have hused : (bootPfa sampleLayout starvedBoot.mods).used f = true := by
        refine (used_bootPfa _ _ f).2 (.inr ?_)
        by_cases hfirst : f = 526
        · exact ⟨_, List.mem_cons_self, 0, by simp, by simp [hfirst]⟩
        · refine ⟨_, List.mem_cons_of_mem _ List.mem_cons_self, f - 527, ?_, ?_⟩
          · simp only
            omega
          · simp only
            omega
      rw [hf.2] at hused
      cases hused
    exact (Finset.card_le_card hsub).trans (by rw [Nat.card_Ico])
  · have hcount := freeCount_bootPfa sampleLayout starvedBoot.mods
    have hpages : (starvedBoot.mods.map modulePages).sum = 15858 := by decide
    omega

/-- The kernel when the first module of {lit}`starvedBoot` has become the process
{lit}`p`. -/
structure FirstMade (k : Kernel) (p d : Nat) (x : BootFrames) : Prop where
  booting : Booting sampleLayout starvedBoot 1 p k
  booted : k.booted = [p]
  pcb_ne : p ≠ 0
  pdt : (k.pcbs p).pdt = 4096 * d
  words : BootWords k.store.mem.phys d x
  nodup : (d :: x.list).Nodup
  nonzero : 0 ∉ x.list
  frames : 4 ≤ k.store.mem.pfa.freeCount ∧ k.store.mem.pfa.freeCount ≤ 5
  heap : k.store.heap.heapCurrent + 4096 * 3 ≤ 0xC03FF000

theorem starvedBoot_first :
    ∃ p k d x, bootModule sampleLayout (0, bootKernel sampleLayout starvedBoot)
      ⟨4096 * 526, 4096 * 527, some [98]⟩ = some (p, k) ∧ FirstMade k p d x := by
  have hstart := booting_start sampleLayout starvedBoot
  have hfree : (bootStore sampleLayout starvedBoot).mem.pfa.freeCount = 13 :=
    freeCount_starvedBoot
  have hheap : (bootStore sampleLayout starvedBoot).heap.heapCurrent = 0xC0200000 := by decide
  have hroom : BootRoom 4 1 (bootStore sampleLayout starvedBoot) :=
    ⟨(bootPfa_frame sampleLayout starvedBoot.mods).2.2, by omega, by omega⟩
  have hread : Readable ⟨4096 * 526, 4096 * 527, some [98]⟩ := by
    simp only [Readable, Memory.copySize]
    omega
  obtain ⟨k, m₀, p, d, base, x, hmade, made, hz, hleft⟩ :=
    createPcbGrubModules_room hstart.holding hroom hread
  have hrun : bootModule sampleLayout (0, bootKernel sampleLayout starvedBoot)
      ⟨4096 * 526, 4096 * 527, some [98]⟩ =
        some (p, { k with booted := k.booted ++ [p] }) := bootModule_first made.pcb_ne hmade
  have hv := hstart.views made.beside
  have htable : x.table ≠ 0 := fun ht => hz (by simp [BootFrames.list, ht])
  refine ⟨p, _, d, x, hrun, hstart.pass (by decide) hrun, ?_, made.pcb_ne, ?_,
    made.space.words htable, made.frames_nodup hz, hz, ⟨?_, ?_⟩, ?_⟩
  · simp [hv.booted, bootKernel]
  · change (k.pcbs p).pdt = _
    rw [made.pcb_eq]
    rfl
  · have := hleft.frames
    simp only
    omega
  · -- The kernel stack alone makes the heap larger than one page.
    have hstack : (base, kernelStackSize) ∈ k.store.heap.live :=
      made.hold.blocks.mem_iff.2 List.mem_cons_self
    have hblock := made.hold.block_le hstack
    have hlow : sampleLayout.heapStart = 0xC0200000 := by decide
    have hsize : kernelStackSize = 4096 := rfl
    have hcount := made.count
    have hdrawn := made.space.drawn.count_of_nonzero hz
    have hfive : x.list.length = 5 := rfl
    have hstore : (bootKernel sampleLayout starvedBoot).store =
        bootStore sampleLayout starvedBoot := rfl
    rw [hstore, hfree, hheap] at hcount
    simp only at hblock ⊢
    omega
  · have := hleft.heap
    simp only
    omega

/-- The first module of a boot with 13 free frames. -/
theorem creation_all_or_nothing_thirteen_frames :
    StoreOk sampleLayout (Reserved sampleLayout starvedBoot.mods)
        (Plenty (bootStore sampleLayout starvedBoot)) (bootStore sampleLayout starvedBoot) [] ∧
      ∀ phys, AllOrNothing sampleLayout ((bootKernel sampleLayout starvedBoot).withPhys phys)
        (4096 * 526) (4096 * 527) := by
  have hstore := (bootStore_holding sampleLayout starvedBoot).store
  have hfree : (bootStore sampleLayout starvedBoot).mem.pfa.freeCount = 13 :=
    freeCount_starvedBoot
  have hpcb := pcbPages_le sampleLayout (bootStore sampleLayout starvedBoot)
  have hstack := stackPages_le sampleLayout (bootStore sampleLayout starvedBoot)
  refine ⟨hstore, (creation_all_or_nothing_iff (k := bootKernel sampleLayout starvedBoot) hstore
    (4096 * 526) (4096 * 527)).2 (.inr ⟨?_, .inr ⟨?_, ?_⟩⟩)⟩
  · change pcbPages sampleLayout (bootStore sampleLayout starvedBoot) < _
    change _ < (bootStore sampleLayout starvedBoot).mem.pfa.freeCount
    omega
  · change pcbPages sampleLayout (bootStore sampleLayout starvedBoot) +
      stackPages sampleLayout (bootStore sampleLayout starvedBoot) + 6 ≤
        (bootStore sampleLayout starvedBoot).mem.pfa.freeCount
    omega
  · decide

/-- The second module of this boot becomes a process whose stack is frame 0. -/
theorem creation_maps_frame_zero :
    ∃ first k, bootModule sampleLayout (0, bootKernel sampleLayout starvedBoot)
        ⟨4096 * 526, 4096 * 527, some [98]⟩ = some (first, k) ∧
      ¬ AllOrNothing sampleLayout k (4096 * 527) (2 ^ 26) := by
  obtain ⟨p, k, d, x, hrun, hfirst⟩ := starvedBoot_first
  refine ⟨p, k, hrun, ?_⟩
  rintro ⟨pcb, k', hcall, hresult, -⟩
  have hspec := createPcbGrubModules_spec hfirst.booting.holding (4096 * 527) (2 ^ 26)
  have hframes := hfirst.frames
  have hheap := hfirst.heap
  rw [hcall] at hspec
  cases hspec with
  | failed hold beside short =>
      unfold MakeShort at short
      omega
  | @made k' m₀ pcb d' base x' made =>
      rw [if_neg made.pcb_ne] at hresult
      refine made.not_newFrames ?_ hresult.1
      by_contra hz
      have := made.zero_notMem_iff.1 hz
      omega

end Kernel

end SoKernel
