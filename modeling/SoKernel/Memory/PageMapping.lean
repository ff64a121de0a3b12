import SoKernel.Kernel.BootAllocator

/-!
# Mapping one page

The kernel maps a page with {lit}`paging_map_page`, which knows two kinds of present directory
entries: the one of the kernel window, whose table is static, and those that it made itself.  The
directory of {lit}`loader.s` has a third kind, the large page of 4 MB that shows low memory at its
own addresses.  The function takes that entry for the address of a table, in frame 0.

The walk of the processor is a definition of its own.  Here the static tables are apart from the
rest of physical memory, so it looks for a table among them first.  The function stores to them by
their addresses in the kernel image, which go through the tables themselves.  A run therefore
leaves the pages of the image where they are, and then these stores reach the tables that the walk
reads.

Main results:

- Theorem {lit}`MapRun.walk_image`: along such calls every byte of the image stays where it was.
- Theorem {lit}`MapInv.mapCall`: the five ways in which a call ends.
- Theorem {lit}`MapRun.inv`: what every sequence of calls keeps of the directory.
- Theorem {lit}`map_page_iff`: when a call maps one page and nothing else.
-/

namespace SoKernel

namespace Memory

/-! ## The walk of the processor -/

/-- Where a virtual address leads, with the rights on the way. -/
structure Translation where
  addr : Nat
  writable : Bool
  user : Bool
deriving DecidableEq

/-- {lit}`PDE_PAGE_SIZE`: the entry is a page of 4 MB. -/
def largePage (e : Nat) : Bool :=
  e / 128 % 2 == 1

/-- A word of a table in frame {lit}`t`. -/
def tableWord (L : Layout) (m : Memory) (t j : Nat) : Nat :=
  if 4096 * t = L.kernelPageTablePhys then m.kernelPageTable j
  else if 4096 * t = L.pageDirectoryPhys then m.pageDirectory j
  else m.phys.word t j

/-- The last step of a walk, from the two entries. -/
def leaf (pde pte va : Nat) : Option Translation :=
  if present pte = false then none
  else some ⟨pte / 4096 * 4096 + va % 4096, (pde / 2 % 2 == 1) && (pte / 2 % 2 == 1),
    (pde / 4 % 2 == 1) && (pte / 4 % 2 == 1)⟩

/-- The walk of the processor through {lit}`page_directory`. -/
def directoryWalk (L : Layout) (m : Memory) (va : Nat) : Option Translation :=
  let pde := m.pageDirectory (va / 2 ^ 22)
  if present pde = false then none
  else if largePage pde then
    some ⟨pde / 2 ^ 22 * 2 ^ 22 + va % 2 ^ 22, pde / 2 % 2 == 1, pde / 4 % 2 == 1⟩
  else leaf pde (tableWord L m (pde / 4096) (va / 2 ^ 12 % 1024)) va

/-- The frame of the table that a walk goes through. -/
def tableOf (m : Memory) (va : Nat) : Option Nat :=
  let pde := m.pageDirectory (va / 2 ^ 22)
  if present pde = true ∧ largePage pde = false then some (pde / 4096) else none

/-- {lit}`paging_map_page` maps one page and nothing else.  What is written to frames is asked for
all contents of memory, so that a write of the bytes that are there already counts as a write. -/
structure MapsOnly (L : Layout) (m : Memory) (vaddr paddr flags : Nat) : Prop where
  page : ∀ va, va / 4096 = vaddr / 4096 →
    (directoryWalk L (m.pagingMapPage vaddr paddr flags) va).map Translation.addr =
      some (paddr / 4096 * 4096 + va % 4096)
  others : ∀ va, va < 2 ^ 32 → va / 4096 ≠ vaddr / 4096 →
    directoryWalk L (m.pagingMapPage vaddr paddr flags) va = directoryWalk L m va
  frames : ∀ phys f,
    tableOf (({ m with phys := phys } : Memory).pagingMapPage vaddr paddr flags) vaddr ≠ some f →
    ByteMemory.BlockEq phys
      (({ m with phys := phys } : Memory).pagingMapPage vaddr paddr flags).phys f
  directory : ∀ i, i ≠ vaddr / 2 ^ 22 →
    (m.pagingMapPage vaddr paddr flags).pageDirectory i = m.pageDirectory i
  kernelTable : ∀ j, j ≠ 1023 → ¬ (vaddr / 2 ^ 22 = 768 ∧ j = vaddr / 2 ^ 12 % 1024) →
    (m.pagingMapPage vaddr paddr flags).kernelPageTable j = m.kernelPageTable j

/-- A call that maps no page of the kernel image, or maps it to its own frame again.  Write
protection is off for the kernel, so the other flags do not matter here. -/
def KeepsImage (L : Layout) (vaddr paddr flags : Nat) : Prop :=
  vaddr / 2 ^ 22 = 768 → 256 ≤ vaddr / 2 ^ 12 % 1024 →
    4096 * (vaddr / 2 ^ 12 % 1024) < L.kernelPhysicalEnd →
      flags % 2 = 1 ∧ paddr / 4096 ||| flags / 4096 = vaddr / 2 ^ 12 % 1024

/-- The memories that calls of {lit}`paging_map_page` lead to, from {lit}`loader.s` and
{lit}`paging_init` on.  The calls keep the kernel image, which holds the code, the stack and both
static tables: after a call that moved one of its pages the stores of {lit}`paging.c` would go
elsewhere. -/
inductive MapRun (L : Layout) (B : BootInfo) : Memory → Prop
  | boot : MapRun L B (bootStore L B).mem
  | call {m : Memory} {vaddr paddr flags : Nat} (hm : MapRun L B m) (hvaddr : vaddr < 2 ^ 32)
      (hpaddr : paddr < 2 ^ 32) (hflags : flags < 2 ^ 32)
      (himage : KeepsImage L vaddr paddr flags) :
      MapRun L B (m.pagingMapPage vaddr paddr flags)

/-! ## The directory along calls -/

/-- A frame that the allocator has handed out. -/
def Taken (m : Memory) (t : Nat) : Prop :=
  m.pfa.startFrame ≤ t ∧ t < m.pfa.totalFrames ∧ m.pfa.used t = true

/-- The directory: the large page, the table of the kernel window, and tables in frames that the
allocator has handed out, each in one place. -/
structure MapInv (L : Layout) (m : Memory) : Prop where
  low : m.pageDirectory 0 = 0x83
  kernel : m.pageDirectory 768 = L.kernelPageTablePhys + 3
  window : PfaWindow m.pfa
  image : L.kernelPhysicalEnd ≤ 4096 * m.pfa.startFrame
  tables : ∀ i, i ≠ 0 → i ≠ 768 →
    m.pageDirectory i = 0 ∨ ∃ t, m.pageDirectory i = 4096 * t + 3 ∧ Taken m t
  distinct : ∀ i j t, i ≠ 0 → j ≠ 0 → i ≠ 768 → j ≠ 768 → m.pageDirectory i = 4096 * t + 3 →
    m.pageDirectory j = 4096 * t + 3 → i = j

/-- The five ways in which a call ends, for the entry {lit}`e` that it writes. -/
inductive MapCall (m : Memory) (vaddr e : Nat) : Memory → Prop
  | kernel (stray : Bool) (index : vaddr / 2 ^ 22 = 768) : MapCall m vaddr e { m with
      kernelPageTable := Function.update m.kernelPageTable (vaddr / 2 ^ 12 % 1024) e
      strayAccess := stray }
  | low (index : vaddr / 2 ^ 22 = 0) : MapCall m vaddr e { m with
      kernelPageTable := Function.update m.kernelPageTable 1023 0
      phys := m.phys.setWord 0 (vaddr / 2 ^ 12 % 1024) e }
  | table {t : Nat} (not_low : vaddr / 2 ^ 22 ≠ 0) (not_kernel : vaddr / 2 ^ 22 ≠ 768)
      (entry : m.pageDirectory (vaddr / 2 ^ 22) = 4096 * t + 3) (taken : Taken m t) :
      MapCall m vaddr e { m with
        kernelPageTable := Function.update m.kernelPageTable 1023 0
        phys := m.phys.setWord t (vaddr / 2 ^ 12 % 1024) e }
  | fresh {f : Nat} (not_low : vaddr / 2 ^ 22 ≠ 0) (not_kernel : vaddr / 2 ^ 22 ≠ 768)
      (entry : m.pageDirectory (vaddr / 2 ^ 22) = 0) (free : m.pfa.Free f) :
      MapCall m vaddr e { m with
        pfa := { m.pfa with bitmap := m.pfa.bitmap.set f }
        kernelPageTable := Function.update m.kernelPageTable 1023 0
        phys := (m.phys.fill (4096 * f) 4096 0).setWord f (vaddr / 2 ^ 12 % 1024) e
        pageDirectory := Function.update m.pageDirectory (vaddr / 2 ^ 22) (4096 * f + 3) }
  | full (not_low : vaddr / 2 ^ 22 ≠ 0) (not_kernel : vaddr / 2 ^ 22 ≠ 768)
      (entry : m.pageDirectory (vaddr / 2 ^ 22) = 0) (none : m.pfa.freeCount = 0) :
      MapCall m vaddr e { m with pfa := { m.pfa with exhausted := true } }

variable {L : Layout} {B : BootInfo} {m m' : Memory} {vaddr paddr flags va e : Nat}

/-- The window is opened on the frame, whatever it showed before. -/
theorem pagingTempUnmap_pagingTempMap (m : Memory) (a : Nat) :
    m.pagingTempUnmap.pagingTempMap a = m.pagingTempMap a := by
  simp only [pagingTempUnmap, pagingTempMap, Function.update_idem]

theorem pagingTempUnmap_closed (m : Memory) : m.pagingTempUnmap.WindowClosed := by
  simp [WindowClosed, pagingTempUnmap]

/-- One word written, whatever the window showed before. -/
theorem pokeWord_any (m : Memory) {n : Nat} (hn : n < 2 ^ 20) (i v : Nat) :
    m.pokeWord (4096 * n) i v = { m with
      kernelPageTable := Function.update m.kernelPageTable 1023 0
      phys := m.phys.setWord n i v } := by
  have hpoke := pokeWord_eq m.pagingTempUnmap_closed hn i v
  simp only [pokeWord, pagingTempUnmap_pagingTempMap] at hpoke ⊢
  rw [hpoke]
  rfl

/-- A call, case by case. -/
theorem MapInv.mapCall (h : MapInv L m) (vaddr paddr flags : Nat) :
    MapCall m vaddr (frameBits paddr ||| flags) (m.pagingMapPage vaddr paddr flags) := by
  unfold pagingMapPage
  simp only []
  by_cases hkernel : vaddr / 2 ^ 22 = 768
  · rw [if_pos hkernel]
    exact .kernel _ hkernel
  rw [if_neg hkernel]
  by_cases hlow : vaddr / 2 ^ 22 = 0
  · have hframe : frameBits (m.pageDirectory (vaddr / 2 ^ 22)) = 4096 * 0 := by
      rw [hlow, h.low]
      decide
    have hpresent : ¬ present (m.pageDirectory (vaddr / 2 ^ 22)) = false := by
      rw [hlow, h.low]
      decide
    rw [if_neg hpresent, hframe, pokeWord_any m (by norm_num)]
    exact .low hlow
  rcases h.tables _ hlow hkernel with hentry | ⟨t, hentry, htaken⟩
  · rw [if_pos (by rw [hentry]; rfl)]
    rcases m.pfa.freeCount_pfaAlloc with ⟨f, hf, halloc, -⟩ | ⟨hcount, halloc⟩
    · have hf0 : 4096 * f ≠ 0 := by
        have := hf.1
        have := h.window.1
        omega
      have hf20 : f < 2 ^ 20 := by
        have := hf.2.1
        have := h.window.2
        omega
      simp only [pfaAlloc, halloc]
      rw [if_neg hf0, ← pagingTempUnmap_pagingTempMap, pagingTempMap_eq _ hf20]
      simp only
      rw [opened_zeroWords _ hf20, opened_writeWord _ hf20, opened_pagingTempUnmap,
        frame_or_flags f (show (3 : Nat) < 4096 by norm_num)]
      · exact .fresh hlow hkernel hentry hf
      · exact m.pagingTempUnmap_closed
    · simp only [pfaAlloc, halloc, if_true]
      exact .full hlow hkernel hentry hcount
  · have ht20 : t < 2 ^ 20 := by
      have := htaken.2.1
      have := h.window.2
      omega
    have hframe : frameBits (m.pageDirectory (vaddr / 2 ^ 22)) = 4096 * t := by
      rw [hentry, frameBits_eq (by omega)]
      omega
    have hpresent : ¬ present (m.pageDirectory (vaddr / 2 ^ 22)) = false := by
      rw [hentry, present_eq, decide_eq_false_iff_not]
      omega
    rw [if_neg hpresent, hframe, pokeWord_any m ht20]
    exact .table hlow hkernel hentry htaken

/-- The directory of {lit}`loader.s` after {lit}`paging_init`. -/
theorem MapInv.boot (L : Layout) (B : BootInfo) : MapInv L (bootStore L B).mem := by
  obtain ⟨hstart, htotal, -⟩ := bootPfa_frame L B.mods
  have hlo := L.image_lo
  have hhi := L.image_hi
  have htable := L.table_aligned
  have hother : ∀ i, i ≠ 0 → i ≠ 768 → (bootStore L B).mem.pageDirectory i = 0 := by
    intro i hi0 hi
    change Function.update (fun i => if i = 0 ∨ i = 768 then 0x83 else 0) 768 _ i = 0
    rw [Function.update_of_ne hi, if_neg (by omega)]
  simp only [pageAlignUp, u32] at hstart
  refine ⟨rfl, ?_, ⟨?_, htotal.le⟩, ?_, fun i hi0 hi => .inl (hother i hi0 hi), ?_⟩
  · have hframe : L.kernelPageTablePhys = 4096 * (L.kernelPageTablePhys / 4096) := by omega
    have hentry : (bootStore L B).mem.pageDirectory 768 = L.kernelPageTablePhys ||| 3 := by
      simp only [bootStore, pagingInit, Function.update_self]
    rw [hentry, hframe, frame_or_flags _ (by norm_num)]
  · change 0 < (bootPfa L B.mods).startFrame
    omega
  · change L.kernelPhysicalEnd ≤ 4096 * (bootPfa L B.mods).startFrame
    omega
  · intro i j t hi0 hj0 hi hj hti
    rw [hother i hi0 hi] at hti
    omega

/-- A call keeps the directory as described. -/
theorem MapInv.call (h : MapInv L m) (hcall : MapCall m vaddr e m') : MapInv L m' := by
  cases hcall with
  | kernel stray index => exact ⟨h.low, h.kernel, h.window, h.image, h.tables, h.distinct⟩
  | low index => exact ⟨h.low, h.kernel, h.window, h.image, h.tables, h.distinct⟩
  | table not_low not_kernel entry taken =>
      exact ⟨h.low, h.kernel, h.window, h.image, h.tables, h.distinct⟩
  | full not_low not_kernel entry none =>
      exact ⟨h.low, h.kernel, h.window, h.image, h.tables, h.distinct⟩
  | @fresh f not_low not_kernel entry free =>
      have hused : ∀ g, ({ m.pfa with bitmap := m.pfa.bitmap.set f } : Pfa).used g =
          (m.pfa.used g || decide (f = g)) := fun g => Pfa.used_mk_set m.pfa f g m.pfa.exhausted
      -- The new table is in no other place, since its frame was free.
      have hother : ∀ i, i ≠ 0 → i ≠ 768 → m.pageDirectory i ≠ 4096 * f + 3 := by
        intro i hi0 hi hentry
        rcases h.tables i hi0 hi with hzero | ⟨t, ht, htaken⟩
        · omega
        · have htf : t = f := by omega
          have hfused := htaken.2.2
          rw [htf, free.2.2] at hfused
          cases hfused
      refine ⟨?_, ?_, h.window, h.image, fun i hi0 hi => ?_, ?_⟩
      · exact (Function.update_of_ne (Ne.symm not_low) _ _).trans h.low
      · exact (Function.update_of_ne (Ne.symm not_kernel) _ _).trans h.kernel
      · by_cases hi' : i = vaddr / 2 ^ 22
        · subst hi'
          refine .inr ⟨f, Function.update_self .., free.1, free.2.1, ?_⟩
          simp [hused]
        · simp only [Function.update_of_ne hi']
          rcases h.tables i hi0 hi with hzero | ⟨t, ht, htaken⟩
          · exact .inl hzero
          · refine .inr ⟨t, ht, htaken.1, htaken.2.1, ?_⟩
            simp [hused, htaken.2.2]
      · intro i j t hi0 hj0 hi hj hti htj
        simp only [Function.update_apply] at hti htj
        split at hti
        · rename_i hi'
          split at htj
          · rename_i hj'
            exact hi'.trans hj'.symm
          · have htf : t = f := by omega
            exact absurd (htf ▸ htj) (hother j hj0 hj)
        · split at htj
          · have htf : t = f := by omega
            exact absurd (htf ▸ hti) (hother i hi0 hi)
          · exact h.distinct i j t hi0 hj0 hi hj hti htj

/-- What every sequence of calls keeps. -/
theorem MapRun.inv (h : MapRun L B m) : MapInv L m := by
  induction h with
  | boot => exact MapInv.boot L B
  | call hm hvaddr hpaddr hflags himage ih => exact ih.call (ih.mapCall _ _ _)

/-! ## Walks -/

/-- The first 4 MB are mapped to themselves. -/
theorem MapInv.walk_low (h : MapInv L m) (hva : va / 2 ^ 22 = 0) :
    directoryWalk L m va = some ⟨va, true, false⟩ := by
  unfold directoryWalk
  rw [hva, h.low]
  have haddr : 0x83 / 2 ^ 22 * 2 ^ 22 + va % 2 ^ 22 = va := by omega
  simp only [haddr]
  rfl

/-- The kernel's part is mapped by its table. -/
theorem MapInv.walk_kernel (h : MapInv L m) (hva : va / 2 ^ 22 = 768) :
    directoryWalk L m va = leaf 3 (m.kernelPageTable (va / 2 ^ 12 % 1024)) va := by
  have htable := L.table_aligned
  have hpresent : ¬ present (L.kernelPageTablePhys + 3) = false := by
    rw [present_eq, decide_eq_false_iff_not]
    omega
  have hlarge : ¬ largePage (L.kernelPageTablePhys + 3) = true := by
    simp only [largePage, beq_iff_eq]
    omega
  have hframe : 4096 * ((L.kernelPageTablePhys + 3) / 4096) = L.kernelPageTablePhys := by omega
  unfold directoryWalk
  rw [hva, h.kernel]
  simp only [if_neg hpresent, if_neg hlarge]
  rw [tableWord, if_pos hframe]
  have hw : (L.kernelPageTablePhys + 3) / 2 % 2 = 1 := by omega
  have hu : (L.kernelPageTablePhys + 3) / 4 % 2 = 0 := by omega
  simp only [leaf, hw, hu]

/-- An empty entry maps nothing. -/
theorem MapInv.walk_none (hentry : m.pageDirectory (va / 2 ^ 22) = 0) : directoryWalk L m va = none := by
  unfold directoryWalk
  rw [hentry]
  rfl

/-- An entry with a table maps what the table says. -/
theorem MapInv.walk_table (h : MapInv L m) {t : Nat} (ht : Taken m t)
    (hentry : m.pageDirectory (va / 2 ^ 22) = 4096 * t + 3) :
    directoryWalk L m va = leaf 3 (m.phys.word t (va / 2 ^ 12 % 1024)) va := by
  have htable := L.table_hi
  have hdirectory := L.directory_hi
  have himage := h.image
  have hlo := ht.1
  have hpresent : ¬ present (4096 * t + 3) = false := by
    rw [present_eq, decide_eq_false_iff_not]
    omega
  have hlarge : ¬ largePage (4096 * t + 3) = true := by
    simp only [largePage, beq_iff_eq]
    omega
  have hframe : (4096 * t + 3) / 4096 = t := by omega
  unfold directoryWalk
  rw [hentry]
  simp only [if_neg hpresent, if_neg hlarge]
  rw [hframe, tableWord, if_neg (by omega), if_neg (by omega)]
  have hw : (4096 * t + 3) / 2 % 2 = 1 := by omega
  have hu : (4096 * t + 3) / 4 % 2 = 0 := by omega
  simp only [leaf, hw, hu]

theorem tableOf_table {t : Nat} (hentry : m.pageDirectory (va / 2 ^ 22) = 4096 * t + 3) :
    tableOf m va = some t := by
  have hpresent : present (4096 * t + 3) = true := by
    rw [present_eq, decide_eq_true_iff]
    omega
  have hlarge : largePage (4096 * t + 3) = false := by
    simp only [largePage, beq_eq_false_iff_ne]
    omega
  unfold tableOf
  rw [hentry]
  simp only [hpresent, hlarge, and_self, if_true, Option.some.injEq]
  omega

/-- A walk depends on the directory entry and on one word of a table. -/
theorem MapInv.walk_congr (h : MapInv L m) (h' : MapInv L m')
    (hentry : m'.pageDirectory (va / 2 ^ 22) = m.pageDirectory (va / 2 ^ 22))
    (hkernel : va / 2 ^ 22 = 768 → leaf 3 (m'.kernelPageTable (va / 2 ^ 12 % 1024)) va =
      leaf 3 (m.kernelPageTable (va / 2 ^ 12 % 1024)) va)
    (htable : ∀ t, va / 2 ^ 22 ≠ 0 → va / 2 ^ 22 ≠ 768 →
      m.pageDirectory (va / 2 ^ 22) = 4096 * t + 3 → Taken m t →
        m'.phys.word t (va / 2 ^ 12 % 1024) = m.phys.word t (va / 2 ^ 12 % 1024)) :
    directoryWalk L m' va = directoryWalk L m va := by
  by_cases hlow : va / 2 ^ 22 = 0
  · rw [h.walk_low hlow, h'.walk_low hlow]
  by_cases hk : va / 2 ^ 22 = 768
  · rw [h.walk_kernel hk, h'.walk_kernel hk, hkernel hk]
  rcases h.tables _ hlow hk with hzero | ⟨t, ht, htaken⟩
  · rw [walk_none hzero, walk_none (hentry.trans hzero)]
  · rcases h'.tables _ hlow hk with hzero | ⟨t', ht', htaken'⟩
    · rw [hzero, ht] at hentry
      omega
    · have htt : t' = t := by omega
      subst htt
      rw [h.walk_table htaken ht, h'.walk_table htaken' ht', htable t' hlow hk ht htaken]

/-- The entry that is written. -/
theorem entry_facts (hpaddr : paddr < 2 ^ 32) (hflags : flags < 2 ^ 32) (hpresent : flags % 2 = 1) :
    (frameBits paddr ||| flags) < 2 ^ 32 ∧ (frameBits paddr ||| flags) % 2 = 1 ∧
      (frameBits paddr ||| flags) / 4096 = paddr / 4096 ||| flags / 4096 := by
  have hframe := frameBits_eq hpaddr
  refine ⟨Nat.or_lt_two_pow (by omega) hflags, ?_, ?_⟩
  · have hbit := Nat.or_mod_two_eq_one (a := frameBits paddr) (b := flags)
    rw [hbit]
    exact .inr hpresent
  · have hdiv : frameBits paddr / 4096 = paddr / 4096 := by omega
    have hor := Nat.shiftRight_or_distrib (a := frameBits paddr) (b := flags) (i := 12)
    simp only [Nat.shiftRight_eq_div_pow] at hor
    rw [← hdiv]
    exact hor

/-- A present entry maps its page. -/
theorem leaf_present (he : e % 2 = 1) :
    (leaf 3 e va).map Translation.addr = some (e / 4096 * 4096 + va % 4096) := by
  have hpresent : ¬ present e = false := by
    rw [present_eq, decide_eq_false_iff_not, not_not]
    exact he
  rw [leaf, if_neg hpresent]
  rfl

/-- An absent entry maps nothing. -/
theorem leaf_absent {pte : Nat} (h : present pte = false) : leaf 3 pte va = none := by
  rw [leaf, if_pos h]

/-- The entries of the kernel page table that show the image. -/
def ImageKept (L : Layout) (m : Memory) : Prop :=
  ∀ i, 256 ≤ i → 4096 * i < L.kernelPhysicalEnd →
    m.kernelPageTable i % 2 = 1 ∧ m.kernelPageTable i / 4096 = i

/-- Boot maps the kernel image where it was loaded. -/
theorem ImageKept.boot (L : Layout) (B : BootInfo) : ImageKept L (bootStore L B).mem := by
  intro i hlo hi
  have himage := L.image_hi
  have hentry : (bootStore L B).mem.kernelPageTable i = i * 4096 ||| 3 := by
    simp only [bootStore, pagingInit]
    rw [if_pos (by omega)]
  rw [hentry, Nat.mul_comm, frame_or_flags i (by norm_num)]
  omega

/-- Changing one entry of the kernel's table keeps the image mapped if it maps the same. -/
theorem ImageKept.of_update (h : ImageKept L m) {j : Nat}
    (hentry : 256 ≤ j → 4096 * j < L.kernelPhysicalEnd → e % 2 = 1 ∧ e / 4096 = j)
    (htable : m'.kernelPageTable = Function.update m.kernelPageTable j e) : ImageKept L m' := by
  intro i hlo hi
  rw [htable]
  by_cases hij : i = j
  · subst hij
    rw [Function.update_self]
    exact hentry hlo hi
  · rw [Function.update_of_ne hij]
    exact h i hlo hi

/-- A call that keeps the image keeps its entries: the other calls write to the slot of the window
only, which is past the image. -/
theorem ImageKept.call (h : ImageKept L m) (hcall : MapCall m vaddr e m')
    (hkeeps : vaddr / 2 ^ 22 = 768 → 256 ≤ vaddr / 2 ^ 12 % 1024 →
      4096 * (vaddr / 2 ^ 12 % 1024) < L.kernelPhysicalEnd →
        e % 2 = 1 ∧ e / 4096 = vaddr / 2 ^ 12 % 1024) : ImageKept L m' := by
  have himage := L.image_hi
  cases hcall with
  | kernel stray index => exact h.of_update (hkeeps index) rfl
  | low index => exact h.of_update (fun _ hslot => by omega) rfl
  | table not_low not_kernel entry taken => exact h.of_update (fun _ hslot => by omega) rfl
  | fresh not_low not_kernel entry free => exact h.of_update (fun _ hslot => by omega) rfl
  | full not_low not_kernel entry none => exact h

/-- What every sequence of calls keeps of the image. -/
theorem MapRun.imageKept (h : MapRun L B m) : ImageKept L m := by
  induction h with
  | boot => exact ImageKept.boot L B
  | @call m vaddr paddr flags hm hvaddr hpaddr hflags himage ih =>
      apply ih.call (hm.inv.mapCall vaddr paddr flags)
      intro hindex hlo hend
      obtain ⟨hodd, hframe⟩ := himage hindex hlo hend
      obtain ⟨-, hbit, hdiv⟩ := entry_facts hpaddr hflags hodd
      exact ⟨hbit, hdiv.trans hframe⟩

/-- Along a run every address of the image leads to the byte that the linker put there.  In
particular {lit}`kernel_page_table` and {lit}`page_directory` are reached in the frames in which the
walk looks for them. -/
theorem MapRun.walk_image (h : MapRun L B m) {x : Nat} (hlo : 0x100000 ≤ x)
    (hx : x < L.kernelPhysicalEnd) :
    (directoryWalk L m (0xC0000000 + x)).map Translation.addr = some x := by
  have himage := L.image_hi
  have hindex : (0xC0000000 + x) / 2 ^ 22 = 768 := by omega
  have hslot : (0xC0000000 + x) / 2 ^ 12 % 1024 = x / 4096 := by omega
  obtain ⟨hodd, hframe⟩ := h.imageKept (x / 4096) (by omega) (by omega)
  rw [h.inv.walk_kernel hindex, hslot, leaf_present hodd, hframe, Option.some.injEq]
  omega

/-- A frame that is handed out. -/
theorem taken_of_free {f : Nat} {phys : ByteMemory} {kernelTable directory : Nat → Nat}
    (h : m.pfa.Free f) : Taken { m with
      pfa := { m.pfa with bitmap := m.pfa.bitmap.set f }
      kernelPageTable := kernelTable
      phys := phys
      pageDirectory := directory } f := by
  refine ⟨h.1, h.2.1, ?_⟩
  simp [Pfa.used]

/-- The page that a call maps. -/
theorem MapInv.walk_mapped (h : MapInv L m) (hcall : MapCall m vaddr e m') (he : e < 2 ^ 32)
    (hlow : vaddr / 2 ^ 22 ≠ 0) (hfree : m.pfa.freeCount ≠ 0) (hva : va / 4096 = vaddr / 4096) :
    directoryWalk L m' va = leaf 3 e va := by
  have h' := h.call hcall
  have hi : va / 2 ^ 22 = vaddr / 2 ^ 22 := by omega
  have hj : va / 2 ^ 12 % 1024 = vaddr / 2 ^ 12 % 1024 := by omega
  have hlt : vaddr / 2 ^ 12 % 1024 < 1024 := Nat.mod_lt _ (by norm_num)
  cases hcall with
  | kernel stray index =>
      rw [h'.walk_kernel (hi.trans index), hj]
      simp only [Function.update_self]
  | low index => exact absurd index hlow
  | table not_low not_kernel entry taken =>
      rw [h'.walk_table taken (by rw [hi]; exact entry), hj, ByteMemory.word_setWord _ he hlt hlt,
        if_pos ⟨rfl, rfl⟩]
  | @fresh f not_low not_kernel entry free =>
      have hentry : Function.update m.pageDirectory (vaddr / 2 ^ 22) (4096 * f + 3) (va / 2 ^ 22) =
          4096 * f + 3 := by
        rw [hi, Function.update_self]
      rw [h'.walk_table (taken_of_free free) hentry, hj, ByteMemory.word_setWord _ he hlt hlt, if_pos ⟨rfl, rfl⟩]
  | full not_low not_kernel entry none => exact absurd none hfree

/-- The pages that a call does not map. -/
theorem MapInv.walk_others (h : MapInv L m) (hcall : MapCall m vaddr e m') (he : e < 2 ^ 32)
    (hlow : vaddr / 2 ^ 22 ≠ 0)
    (hslot : vaddr / 2 ^ 22 = 768 ∨ present (m.kernelPageTable 1023) = false)
    (hva : va / 4096 ≠ vaddr / 4096) : directoryWalk L m' va = directoryWalk L m va := by
  have h' := h.call hcall
  have hlt : vaddr / 2 ^ 12 % 1024 < 1024 := Nat.mod_lt _ (by norm_num)
  have hlt' : va / 2 ^ 12 % 1024 < 1024 := Nat.mod_lt _ (by norm_num)
  have hpair : va / 2 ^ 22 = vaddr / 2 ^ 22 → va / 2 ^ 12 % 1024 ≠ vaddr / 2 ^ 12 % 1024 := by
    omega
  -- The window may lose its entry, which was not present.
  have hwindow : vaddr / 2 ^ 22 ≠ 768 →
      leaf 3 (Function.update m.kernelPageTable 1023 0 (va / 2 ^ 12 % 1024)) va =
        leaf 3 (m.kernelPageTable (va / 2 ^ 12 % 1024)) va := by
    intro hne
    have habsent := hslot.resolve_left hne
    by_cases hj : va / 2 ^ 12 % 1024 = 1023
    · rw [hj, Function.update_self, leaf_absent habsent, leaf_absent rfl]
    · rw [Function.update_of_ne hj]
  cases hcall with
  | kernel stray index =>
      refine h.walk_congr h' rfl (fun hk => ?_) fun _ _ _ _ _ => rfl
      simp only [Function.update_of_ne (hpair (hk.trans index.symm))]
  | low index => exact absurd index hlow
  | @table t not_low not_kernel entry taken =>
      refine h.walk_congr h' rfl (fun _ => hwindow not_kernel) fun t' hi0 hi ht' _ => ?_
      rw [ByteMemory.word_setWord _ he hlt hlt', if_neg]
      rintro ⟨rfl, hj⟩
      exact hpair (h.distinct _ _ t' hi0 not_low hi not_kernel ht' entry) hj
  | @fresh f not_low not_kernel entry free =>
      by_cases hi : va / 2 ^ 22 = vaddr / 2 ^ 22
      · have hentry : Function.update m.pageDirectory (vaddr / 2 ^ 22) (4096 * f + 3)
            (va / 2 ^ 22) = 4096 * f + 3 := by
          rw [hi, Function.update_self]
        rw [h'.walk_table (taken_of_free free) hentry, ByteMemory.word_setWord _ he hlt hlt',
          if_neg fun hboth => hpair hi hboth.2, ByteMemory.word_fill_zero _ hlt', leaf_absent rfl,
          walk_none (hi ▸ entry)]
      · refine h.walk_congr h' (Function.update_of_ne hi _ _) (fun _ => hwindow not_kernel)
          fun t hi0 hk ht htaken => ?_
        have hne : t ≠ f := by
          rintro rfl
          have hused := htaken.2.2
          rw [free.2.2] at hused
          cases hused
        rw [ByteMemory.word_setWord _ he hlt hlt', if_neg fun hboth => hne hboth.1]
        exact (ByteMemory.blockEq_fill m.phys hne).word hlt'
  | full not_low not_kernel entry none =>
      exact h.walk_congr h' rfl (fun _ => rfl) fun _ _ _ _ _ => rfl

/-- The frames that a call does not write. -/
theorem MapCall.frames (hcall : MapCall m vaddr e m') (hlow : vaddr / 2 ^ 22 ≠ 0) {f : Nat}
    (htable : tableOf m' vaddr ≠ some f) : ByteMemory.BlockEq m.phys m'.phys f := by
  have hlt : vaddr / 2 ^ 12 % 1024 < 1024 := Nat.mod_lt _ (by norm_num)
  cases hcall with
  | kernel stray index => exact .refl _ _
  | low index => exact absurd index hlow
  | @table t not_low not_kernel entry taken =>
      have hne : f ≠ t := by
        rintro rfl
        exact htable (tableOf_table entry)
      exact (ByteMemory.blockEq_setWord _ hlt hne).symm
  | @fresh g not_low not_kernel entry free =>
      have hne : f ≠ g := by
        rintro rfl
        exact htable (tableOf_table (Function.update_self ..))
      exact ((ByteMemory.blockEq_setWord _ hlt hne).trans (ByteMemory.blockEq_fill _ hne)).symm
  | full not_low not_kernel entry none => exact .refl _ _

/-- The static tables: one entry of the directory, and one of the kernel page table beside the
window. -/
theorem MapCall.statics (hcall : MapCall m vaddr e m') :
    (∀ i, i ≠ vaddr / 2 ^ 22 → m'.pageDirectory i = m.pageDirectory i) ∧
      ∀ j, j ≠ 1023 → ¬ (vaddr / 2 ^ 22 = 768 ∧ j = vaddr / 2 ^ 12 % 1024) →
        m'.kernelPageTable j = m.kernelPageTable j := by
  cases hcall with
  | kernel stray index =>
      exact ⟨fun _ _ => rfl, fun j _ hj => Function.update_of_ne (fun h => hj ⟨index, h⟩) _ _⟩
  | low index => exact ⟨fun _ _ => rfl, fun j hj _ => Function.update_of_ne hj _ _⟩
  | table not_low not_kernel entry taken =>
      exact ⟨fun _ _ => rfl, fun j hj _ => Function.update_of_ne hj _ _⟩
  | fresh not_low not_kernel entry free =>
      exact ⟨fun i hi => Function.update_of_ne hi _ _, fun j hj _ => Function.update_of_ne hj _ _⟩
  | full not_low not_kernel entry none => exact ⟨fun _ _ => rfl, fun _ _ _ => rfl⟩

/-- Outside the kernel window a call empties the temporary window. -/
theorem MapCall.closes (hcall : MapCall m vaddr e m') (hkernel : vaddr / 2 ^ 22 ≠ 768)
    (hfree : m.pfa.freeCount ≠ 0) : m'.kernelPageTable 1023 = 0 := by
  cases hcall with
  | kernel stray index => exact absurd index hkernel
  | low index => exact m.pagingTempUnmap_closed
  | table not_low not_kernel entry taken => exact m.pagingTempUnmap_closed
  | fresh not_low not_kernel entry free => exact m.pagingTempUnmap_closed
  | full not_low not_kernel entry none => exact absurd none hfree

/-- The contents of memory do not matter for the directory. -/
theorem MapInv.withPhys (h : MapInv L m) (phys : ByteMemory) : MapInv L { m with phys := phys } :=
  ⟨h.low, h.kernel, h.window, h.image, h.tables, h.distinct⟩

/-- Below 4 MB the call writes to frame 0, which is no table. -/
theorem MapInv.low_writes (h : MapInv L m) (hlow : vaddr / 2 ^ 22 = 0) (hpaddr : paddr < 2 ^ 32)
    (hflags : flags < 2 ^ 32) (hpresent : flags % 2 = 1) : ¬ MapsOnly L m vaddr paddr flags := by
  intro hmaps
  obtain ⟨he, hodd, -⟩ := entry_facts hpaddr hflags hpresent
  have hlt : vaddr / 2 ^ 12 % 1024 < 1024 := Nat.mod_lt _ (by norm_num)
  -- Let the word be 0 before the call.
  have hclear := h.withPhys (m.phys.setWord 0 (vaddr / 2 ^ 12 % 1024) 0)
  have hcall := hclear.mapCall vaddr paddr flags
  have hframes := hmaps.frames (m.phys.setWord 0 (vaddr / 2 ^ 12 % 1024) 0) 0
  have hnone := (hclear.call hcall).low
  generalize ({ m with phys := m.phys.setWord 0 (vaddr / 2 ^ 12 % 1024) 0 } :
    Memory).pagingMapPage vaddr paddr flags = m' at hcall hframes hnone
  have hwritten : m'.phys = (m.phys.setWord 0 (vaddr / 2 ^ 12 % 1024) 0).setWord 0
      (vaddr / 2 ^ 12 % 1024) (frameBits paddr ||| flags) := by
    cases hcall with
    | kernel stray index => omega
    | low index => rfl
    | table not_low not_kernel entry taken => exact absurd hlow not_low
    | fresh not_low not_kernel entry free => exact absurd hlow not_low
    | full not_low not_kernel entry none => exact absurd hlow not_low
  have htable : tableOf m' vaddr ≠ some 0 := by
    unfold tableOf
    rw [hlow, hnone]
    decide
  have hword := (hframes htable).word hlt
  rw [hwritten, ByteMemory.word_setWord _ he hlt hlt, if_pos ⟨rfl, rfl⟩,
    ByteMemory.word_setWord _ (by norm_num) hlt hlt, if_pos ⟨rfl, rfl⟩] at hword
  rw [← hword] at hodd
  cases hodd

/-- A call maps one page and nothing else, in every memory that such calls lead to, if and only if
the page is not in the first 4 MB, the flags have no bits of an address that the frame does not
have, and the window does not show anything that the call would take away. -/
theorem map_page_iff (hm : MapRun L B m) (hslot : vaddr / 4096 ≠ 0xC03FF) (hpaddr : paddr < 2 ^ 32)
    (hflags : flags < 2 ^ 32) (hpresent : flags % 2 = 1) (hfree : ∃ f, m.pfa.Free f) :
    MapsOnly L m vaddr paddr flags ↔
      vaddr / 2 ^ 22 ≠ 0 ∧ paddr / 4096 ||| flags / 4096 = paddr / 4096 ∧
        (vaddr / 2 ^ 22 = 768 ∨ present (m.kernelPageTable 1023) = false) := by
  have h := hm.inv
  have hcall := h.mapCall vaddr paddr flags
  obtain ⟨he, hodd, hframe⟩ := entry_facts hpaddr hflags hpresent
  have hcount : m.pfa.freeCount ≠ 0 := by
    obtain ⟨f, hf⟩ := hfree
    exact fun hzero => (Pfa.freeCount_eq_zero.1 hzero) f hf
  constructor
  · intro hmaps
    have hlow : vaddr / 2 ^ 22 ≠ 0 := fun hlow =>
      h.low_writes hlow hpaddr hflags hpresent hmaps
    refine ⟨hlow, ?_, ?_⟩
    · have hpage := hmaps.page vaddr rfl
      rw [h.walk_mapped hcall he hlow hcount rfl, leaf_present hodd, Option.some.injEq,
        hframe] at hpage
      omega
    · by_contra hboth
      rw [not_or] at hboth
      have hothers := hmaps.others 0xC03FF000 (by norm_num) (Ne.symm hslot)
      rw [h.walk_kernel (by norm_num), (h.call hcall).walk_kernel (by norm_num),
        show 0xC03FF000 / 2 ^ 12 % 1024 = 1023 by norm_num, hcall.closes hboth.1 hcount,
        leaf_absent rfl, leaf, if_neg hboth.2] at hothers
      cases hothers
  · rintro ⟨hlow, hbits, hwindow⟩
    refine ⟨fun va hva => ?_, fun va _ hva => ?_, fun phys f htable => ?_, hcall.statics.1,
      hcall.statics.2⟩
    · rw [h.walk_mapped hcall he hlow hcount hva, leaf_present hodd, hframe, hbits]
    · exact h.walk_others hcall he hlow hwindow hva
    · exact ((h.withPhys phys).mapCall vaddr paddr flags).frames hlow htable

/-- A boot with one module leaves free frames. -/
theorem sampleBoot_free :
    ∃ f, (bootStore sampleLayout (sampleBoot 1 (by decide) .fcfs)).mem.pfa.Free f := by
  have hframes := bootPfa_frame sampleLayout (sampleBoot 1 (by decide) .fcfs).mods
  have hcount := freeCount_bootPfa sampleLayout (sampleBoot 1 (by decide) .fcfs).mods
  have hpages : ((sampleBoot 1 (by decide) .fcfs).mods.map modulePages).sum = 1 :=
    sum_modulePages_sample 1
  have halign : pageAlignUp sampleLayout.kernelPhysicalEnd = 0x200000 := by decide
  rw [halign] at hframes
  by_contra hnone
  have hzero := Pfa.freeCount_eq_zero.2 (not_exists.1 hnone)
  change (bootPfa sampleLayout (sampleBoot 1 (by decide) .fcfs).mods).freeCount = 0 at hzero
  omega

/-- The page at 0xD0000000, for which a table is made, after a call for a page past the image. -/
theorem map_page_new_table :
    MapsOnly sampleLayout ((bootStore sampleLayout (sampleBoot 1 (by decide) .fcfs)).mem.pagingMapPage
      0xC03FD000 0x700000 3) 0xD0000000 0x800000 3 := by
  have hrun : MapRun sampleLayout (sampleBoot 1 (by decide) .fcfs)
      ((bootStore sampleLayout (sampleBoot 1 (by decide) .fcfs)).mem.pagingMapPage
        0xC03FD000 0x700000 3) :=
    .call .boot (by norm_num) (by norm_num) (by norm_num) fun _ _ hend => absurd hend (by decide)
  exact (map_page_iff hrun (by norm_num) (by norm_num) (by norm_num) (by norm_num)
    sampleBoot_free).2 ⟨by norm_num, by decide, .inr rfl⟩

/-- The page at 0x1000: it stays at its own address, and frame 0 is written. -/
theorem map_page_in_large_page :
    (∃ f, (bootStore sampleLayout (sampleBoot 1 (by decide) .fcfs)).mem.pfa.Free f) ∧
      MapRun sampleLayout (sampleBoot 1 (by decide) .fcfs)
        (bootStore sampleLayout (sampleBoot 1 (by decide) .fcfs)).mem ∧
      ¬ MapsOnly sampleLayout (bootStore sampleLayout (sampleBoot 1 (by decide) .fcfs)).mem
        0x1000 0x800000 3 :=
  ⟨sampleBoot_free, .boot, (MapInv.boot _ _).low_writes (by norm_num) (by norm_num) (by norm_num)
    (by norm_num)⟩

end Memory

end SoKernel
