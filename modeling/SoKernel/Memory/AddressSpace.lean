import SoKernel.Library.PageTable
import SoKernel.Syscall.UserSpace

/-!
# Address spaces and their release

The slots of a user address space are those of its page directory apart from the
kernel's entry 768.  This module states what a well-formed address space is and
what {lit}`destroy_user_space` does: it releases exactly the frames in the slots.

Main results:

- Definition {lit}`Space`: the invariant of the address space of a process.
- Theorem {lit}`destroyUserSpace_spec`: the used frames afterwards are those used
  before that no slot had.
-/

namespace SoKernel

namespace Memory

/-- The slots of the address space with the directory in frame {lit}`d`. -/
def slots (m : Memory) (d : Nat) : Slot → Option Nat :=
  slotFrame 768 m.phys d

/-- A frame the allocator hands out. -/
def Managed (m : Memory) (f : Nat) : Prop :=
  m.pfa.startFrame ≤ f ∧ f < m.pfa.totalFrames

/-- Every page that frame 0 maps, read as a table, is frame 0. -/
def ZeroTable (phys : ByteMemory) : Prop :=
  ∀ j, j < 1024 → phys.word 0 j % 2 = 1 → phys.word 0 j / 4096 = 0

/-- A well-formed user address space: the kernel's entry is shared, the entries above
it are empty, and every frame in a slot is used, managed and in no other slot.  A boot
that runs out of frames may leave frame 0 in slots; a table there maps only frame 0. -/
structure Space (m : Memory) (d : Nat) : Prop where
  dir_ne : d ≠ 0
  kernel : m.phys.word d 768 = m.pageDirectory 768
  high : ∀ i, 768 < i → i < 1024 → m.phys.word d i = 0
  used : ∀ f, Owns (m.slots d) f → m.pfa.used f = true ∧ m.Managed f
  separate : Separate (m.slots d)
  zero : (∃ i, m.slots d (.table i) = some 0) → ZeroTable m.phys

/-- The parts of memory that building, copying and releasing spaces leaves alone. -/
structure MemSame (m m' : Memory) : Prop where
  pageDirectory : m'.pageDirectory = m.pageDirectory
  kernelPageTable : m'.kernelPageTable = m.kernelPageTable
  cr3 : m'.cr3 = m.cr3
  strayAccess : m'.strayAccess = m.strayAccess
  destroyedLoaded : m'.destroyedLoaded = m.destroyedLoaded
  startFrame : m'.pfa.startFrame = m.pfa.startFrame
  totalFrames : m'.pfa.totalFrames = m.pfa.totalFrames

theorem MemSame.refl (m : Memory) : MemSame m m :=
  ⟨rfl, rfl, rfl, rfl, rfl, rfl, rfl⟩

theorem MemSame.trans {m m' m'' : Memory} (h : MemSame m m') (h' : MemSame m' m'') :
    MemSame m m'' :=
  ⟨h'.1.trans h.1, h'.2.trans h.2, h'.3.trans h.3, h'.4.trans h.4, h'.5.trans h.5,
    h'.6.trans h.6, h'.7.trans h.7⟩

/-- The window is closed and the allocator's frames are within 64 MB and not frame 0. -/
structure MemOk (m : Memory) : Prop where
  closed : m.WindowClosed
  window : PfaWindow m.pfa

theorem MemOk.same {m m' : Memory} (h : MemOk m) (hs : MemSame m m') : MemOk m' :=
  ⟨by rw [WindowClosed, hs.kernelPageTable]; exact h.closed,
    hs.startFrame ▸ h.window.1, hs.totalFrames ▸ h.window.2⟩

theorem MemOk.managed {m : Memory} (h : MemOk m) {f : Nat} (hf : m.Managed f) :
    f ≠ 0 ∧ f < 2 ^ 20 := by
  have := h.window.1
  have := h.window.2
  have := hf.1
  have := hf.2
  omega

theorem word_frame_lt (phys : ByteMemory) (n i : Nat) : phys.word n i / 4096 < 2 ^ 20 := by
  have := phys.word_lt n i
  omega

theorem frameBits_word (phys : ByteMemory) (n i : Nat) :
    frameBits (phys.word n i) = 4096 * (phys.word n i / 4096) :=
  frameBits_eq (phys.word_lt n i)

/-! ## Releasing the pages of a table -/

/-- Releasing a frame number, seen from every frame. -/
theorem used_pfaFree_frame (p : Pfa) (f g : Nat) :
    (p.pfaFree (4096 * f)).used g = true ↔
      p.used g = true ∧ ¬ (f = g ∧ p.startFrame ≤ g ∧ g < p.totalFrames) := by
  have hdiv : 4096 * f / 4096 = f := by omega
  rw [Pfa.used_pfaFree, hdiv]
  simp only [Bool.and_eq_true, Bool.not_eq_true', decide_eq_false_iff_not]

/-- The loop over a table releases the managed frames its entries name. -/
theorem destroyTable_spec (m : Memory) {t : Nat} (ht : t < 2 ^ 20) :
    ∃ p : Pfa, (m.opened t).destroyTable ⟨4096 * t⟩ = ({ m with pfa := p } : Memory).opened t ∧
      p.startFrame = m.pfa.startFrame ∧ p.totalFrames = m.pfa.totalFrames ∧
      p.exhausted = m.pfa.exhausted ∧
      ∀ g, p.used g = true ↔ m.pfa.used g = true ∧
        ¬ (m.Managed g ∧ ∃ j, j < 1024 ∧ entryFrame (m.phys.word t j) = some g) := by
  -- After {lit}`j` passes the frames of the first {lit}`j` entries are released.
  refine forRange_induct (fun k (mm : Memory) => ∃ p : Pfa,
    mm = ({ m with pfa := p } : Memory).opened t ∧
      p.startFrame = m.pfa.startFrame ∧ p.totalFrames = m.pfa.totalFrames ∧
      p.exhausted = m.pfa.exhausted ∧
      ∀ g, p.used g = true ↔ m.pfa.used g = true ∧
        ¬ (m.Managed g ∧ ∃ j, j < k ∧ entryFrame (m.phys.word t j) = some g))
    ⟨m.pfa, rfl, rfl, rfl, rfl, by simp⟩ ?_
  rintro j - mm ⟨p, rfl, hstart, htotal, hexh, hused⟩
  have hread : (({ m with pfa := p } : Memory).opened t).readWord ⟨4096 * t⟩ j =
      (m.phys.word t j, ({ m with pfa := p } : Memory).opened t) := by
    simp only [readWord, opened_touch, opened_windowBase _ ht]
    rfl
  simp only [hread, present_eq, decide_eq_true_eq]
  split
  · rename_i hodd
    refine ⟨p.pfaFree (frameBits (m.phys.word t j)), rfl, by simpa using hstart,
      by simpa using htotal, by simpa using hexh, fun g => ?_⟩
    rw [frameBits_word, used_pfaFree_frame, hused, hstart, htotal]
    have hentry : ∀ x, entryFrame (m.phys.word t j) = some x ↔ m.phys.word t j / 4096 = x := by
      intro x
      rw [entryFrame_of_odd hodd, Option.some_inj]
    constructor
    · rintro ⟨⟨hu, hno⟩, hne⟩
      refine ⟨hu, ?_⟩
      rintro ⟨hman, j', hj', he⟩
      by_cases hjj : j' = j
      · rw [hjj] at he
        exact hne ⟨(hentry g).1 he, hman⟩
      · exact hno ⟨hman, j', by omega, he⟩
    · rintro ⟨hu, hno⟩
      refine ⟨⟨hu, ?_⟩, ?_⟩
      · rintro ⟨hman, j', hj', he⟩
        exact hno ⟨hman, j', by omega, he⟩
      · rintro ⟨hg, hman⟩
        exact hno ⟨hman, j, by omega, (hentry g).2 hg⟩
  · rename_i heven
    refine ⟨p, rfl, hstart, htotal, hexh, fun g => ?_⟩
    rw [hused]
    have hentry : entryFrame (m.phys.word t j) ≠ some g := by
      rw [entryFrame, if_neg heven]
      simp
    constructor
    · rintro ⟨hu, hno⟩
      refine ⟨hu, ?_⟩
      rintro ⟨hman, j', hj', he⟩
      by_cases hjj : j' = j
      · rw [hjj] at he
        exact hentry he
      · exact hno ⟨hman, j', by omega, he⟩
    · rintro ⟨hu, hno⟩
      refine ⟨hu, ?_⟩
      rintro ⟨hman, j', hj', he⟩
      exact hno ⟨hman, j', by omega, he⟩

/-! ## Releasing a space -/

/-- The frames that the loop over the directory releases before entry {lit}`i`. -/
def ReleasedBelow (m : Memory) (d i g : Nat) : Prop :=
  m.Managed g ∧ ∃ i', i' < i ∧
    (m.slots d (.table i') = some g ∨ ∃ j, m.slots d (.page i' j) = some g)

/-- The state of {lit}`destroy_user_space` before entry {lit}`i`. -/
structure Destroying (m : Memory) (d i : Nat) (mm : Memory) : Prop where
  rest : mm = { m with pfa := mm.pfa, phys := mm.phys }
  startFrame : mm.pfa.startFrame = m.pfa.startFrame
  totalFrames : mm.pfa.totalFrames = m.pfa.totalFrames
  exhausted : mm.pfa.exhausted = m.pfa.exhausted
  phys : ∀ f, f ≠ d → ByteMemory.BlockEq m.phys mm.phys f
  ahead : ∀ i', i ≤ i' → i' < 1024 → mm.phys.word d i' = m.phys.word d i'
  used : ∀ g, mm.pfa.used g = true ↔ m.pfa.used g = true ∧ ¬ m.ReleasedBelow d i g

/-- The frames behind one directory entry. -/
theorem releasedBelow_succ {m : Memory} {d i g : Nat} :
    m.ReleasedBelow d (i + 1) g ↔ m.ReleasedBelow d i g ∨
      (m.Managed g ∧ (m.slots d (.table i) = some g ∨ ∃ j, m.slots d (.page i j) = some g)) := by
  constructor
  · rintro ⟨hman, i', hi', h⟩
    by_cases hii : i' = i
    · exact .inr ⟨hman, hii ▸ h⟩
    · exact .inl ⟨hman, i', by omega, h⟩
  · rintro (⟨hman, i', hi', h⟩ | ⟨hman, h⟩)
    · exact ⟨hman, i', by omega, h⟩
    · exact ⟨hman, i, by omega, h⟩

theorem released_step {u r p t a : Prop} :
    ((u ∧ ¬ r) ∧ ¬ (a ∧ p)) ∧ ¬ (t ∧ a) ↔ u ∧ ¬ (r ∨ (a ∧ (t ∨ p))) := by
  tauto

theorem released_end {u p t a : Prop} : (u ∧ ¬ (a ∧ p)) ∧ ¬ (t ∧ a) ↔ u ∧ ¬ (a ∧ (t ∨ p)) := by
  tauto

/-- A pass over an entry without a table. -/
theorem Destroying.skip {m mm : Memory} {d i : Nat} (h : Destroying m d i mm)
    (hnone : m.slots d (.table i) = none) : Destroying m d (i + 1) mm := by
  refine ⟨h.rest, h.startFrame, h.totalFrames, h.exhausted, h.phys,
    fun i' hi' => h.ahead i' (by omega), fun g => ?_⟩
  have hpage : ∀ j, m.slots d (.page i j) = none := fun j => slotFrame_page_none hnone
  rw [h.used, releasedBelow_succ]
  simp [hnone, hpage]

/-- One pass of the loop over the directory. -/
theorem Destroying.step {m mm : Memory} {d i : Nat} (h : Destroying m d i mm) (hok : MemOk m)
    (hd : d ≠ 0) (hd20 : d < 2 ^ 20) (hsep : Separate (m.slots d)) (hi : i < 1024) :
    Destroying m d (i + 1) (destroyEntry (4096 * d) i mm) := by
  have hclosed : mm.WindowClosed := by
    rw [WindowClosed, h.rest]
    exact hok.closed
  have hword : mm.phys.word d i = m.phys.word d i := h.ahead i le_rfl hi
  unfold destroyEntry
  by_cases hkernel : i = 768
  · rw [if_pos hkernel]
    refine h.skip ?_
    simp [slots, slotFrame, hkernel]
  · rw [if_neg hkernel, peekWord_eq hclosed hd20 i, hword]
    simp only [present_eq, decide_eq_false_iff_not]
    by_cases hodd : m.phys.word d i % 2 = 1
    · rw [if_neg (by simpa using hodd)]
      have htable : m.slots d (.table i) = some (m.phys.word d i / 4096) := by
        rw [slots, slotFrame_table hi hkernel, entryFrame_of_odd hodd]
      generalize htdef : m.phys.word d i / 4096 = t at htable
      have ht20 : t < 2 ^ 20 := htdef ▸ word_frame_lt m.phys d i
      -- The directory is in its own slot, so no table is in its frame.
      have htd : t ≠ d := by
        rintro rfl
        cases hsep (.table i) .dir t hd htable rfl
      rw [frameBits_word, htdef, pagingTempMap_eq mm ht20]
      obtain ⟨p, hp, hstart, htotal, hexh, hused⟩ := destroyTable_spec mm ht20
      have hunmap : ({ mm with pfa := p } : Memory).WindowClosed := hclosed
      simp only [hp, opened_pagingTempUnmap hunmap]
      have hpoke : ({ mm with pfa := p } : Memory).pfaFree (4096 * t) =
          { mm with pfa := p.pfaFree (4096 * t) } := rfl
      have hclosed' : ({ mm with pfa := p.pfaFree (4096 * t) } : Memory).WindowClosed := hclosed
      rw [hpoke, pokeWord_eq hclosed' hd20]
      refine ⟨?_, ?_, ?_, ?_, fun f hf => ?_, fun i' hi' hlt => ?_, fun g => ?_⟩
      · rw [h.rest]
      · simpa [hstart] using h.startFrame
      · simpa [htotal] using h.totalFrames
      · simpa [hexh] using h.exhausted
      · exact (h.phys f hf).trans (ByteMemory.blockEq_setWord mm.phys hi hf).symm
      · rw [ByteMemory.word_setWord mm.phys (by norm_num) hi hlt, if_neg (by omega)]
        exact h.ahead i' (by omega) hlt
      · have hmanaged : mm.Managed g ↔ m.Managed g := by
          simp only [Managed, h.startFrame, h.totalFrames]
        have hpages : (∃ j, j < 1024 ∧ entryFrame (mm.phys.word t j) = some g) ↔
            ∃ j, m.slots d (.page i j) = some g := by
          constructor
          · rintro ⟨j, hj, he⟩
            refine ⟨j, ?_⟩
            rw [slots, slotFrame_page htable hj, (h.phys t htd).word hj]
            exact he
          · rintro ⟨j, he⟩
            obtain ⟨t', ht', hj, -, -⟩ := slotFrame_page_some he
            refine ⟨j, hj, ?_⟩
            rw [← (h.phys t htd).word hj, ← slotFrame_page htable hj]
            exact he
        have htg : m.slots d (.table i) = some g ↔ t = g := by
          rw [htable, Option.some_inj]
        rw [used_pfaFree_frame, hused, h.used, hstart, htotal, h.startFrame, h.totalFrames,
          hmanaged, hpages, releasedBelow_succ, htg]
        exact released_step
    · rw [if_pos (by simpa using hodd)]
      refine h.skip ?_
      rw [slots, slotFrame_table hi hkernel, entryFrame, if_neg hodd]

/-- {lit}`destroy_user_space` releases exactly the frames in the slots of a space and
writes only its directory. -/
theorem destroyUserSpace_spec {m : Memory} {d : Nat} (hok : MemOk m) (hd : d ≠ 0)
    (hd20 : d < 2 ^ 20) (hsep : Separate (m.slots d))
    (hman : ∀ f, Owns (m.slots d) f → m.Managed f) :
    ∃ (p : Pfa) (phys : ByteMemory),
      m.destroyUserSpace (4096 * d) = { m with
        pfa := p
        phys := phys
        destroyedLoaded := m.destroyedLoaded || decide (4096 * d = m.cr3) } ∧
      p.startFrame = m.pfa.startFrame ∧ p.totalFrames = m.pfa.totalFrames ∧
      p.exhausted = m.pfa.exhausted ∧
      (∀ f, f ≠ d → ByteMemory.BlockEq m.phys phys f) ∧
      ∀ g, p.used g = true ↔ m.pfa.used g = true ∧ ¬ Owns (m.slots d) g := by
  generalize hm₁ : ({ m with destroyedLoaded := m.destroyedLoaded || decide (4096 * d = m.cr3) } :
    Memory) = m₁
  have hok₁ : MemOk m₁ := by
    subst hm₁
    exact ⟨hok.closed, hok.window⟩
  have hslots : m₁.slots d = m.slots d := by
    subst hm₁
    rfl
  have hloop := @forRange_induct _ 1024 (destroyEntry (4096 * d)) m₁ (Destroying m₁ d)
    ⟨rfl, rfl, rfl, rfl, fun _ _ => ByteMemory.BlockEq.refl _ _, fun _ _ _ => rfl,
      fun g => by simp [ReleasedBelow]⟩
    (fun i hi mm hmm => hmm.step hok₁ hd hd20 (hslots ▸ hsep) hi)
  generalize hres : forRange 1024 (destroyEntry (4096 * d)) m₁ = mm at hloop
  have hrun : m.destroyUserSpace (4096 * d) = mm.pfaFree (4096 * d) := by
    rw [destroyUserSpace, if_neg (by omega)]
    simp only [hm₁, hres]
  refine ⟨mm.pfa.pfaFree (4096 * d), mm.phys, ?_, ?_, ?_, ?_, fun f hf => ?_, fun g => ?_⟩
  · rw [hrun, pfaFree, hloop.rest, ← hm₁]
  · rw [Pfa.pfaFree_startFrame, hloop.startFrame, ← hm₁]
  · rw [Pfa.pfaFree_totalFrames, hloop.totalFrames, ← hm₁]
  · rw [Pfa.pfaFree_exhausted, hloop.exhausted, ← hm₁]
  · have := hloop.phys f hf
    rwa [← hm₁] at this
  · have hused : m₁.pfa.used g = true ↔ m.pfa.used g = true := by rw [← hm₁]
    have hmanaged : m₁.Managed g ↔ m.Managed g := by rw [← hm₁]; rfl
    have howns : m.Managed g ∧ (d = g ∨ ∃ i', i' < 1024 ∧
        (m.slots d (.table i') = some g ∨ ∃ j, m.slots d (.page i' j) = some g)) ↔
        Owns (m.slots d) g := by
      constructor
      · rintro ⟨hg, h⟩
        refine ⟨(hok.managed hg).1, ?_⟩
        rcases h with rfl | ⟨i, -, h | ⟨j, h⟩⟩
        · exact ⟨.dir, rfl⟩
        · exact ⟨.table i, h⟩
        · exact ⟨.page i j, h⟩
      · intro ho
        refine ⟨hman g ho, ?_⟩
        obtain ⟨-, s, hs⟩ := ho
        cases s with
        | dir => exact .inl (Option.some.inj hs)
        | table i => exact .inr ⟨i, (slotFrame_table_some hs).1, .inl hs⟩
        | page i j =>
            obtain ⟨t, ht, -⟩ := slotFrame_page_some hs
            exact .inr ⟨i, (slotFrame_table_some ht).1, .inr ⟨j, hs⟩⟩
    rw [used_pfaFree_frame, hloop.used, hloop.startFrame, hloop.totalFrames, hused, ReleasedBelow,
      hmanaged, hslots, ← howns]
    have hmd : (m₁.pfa.startFrame ≤ g ∧ g < m₁.pfa.totalFrames) ↔ m.Managed g := hmanaged
    rw [hmd]
    exact released_end

end Memory

end SoKernel
