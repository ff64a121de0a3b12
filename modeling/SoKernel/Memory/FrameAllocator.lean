import SoKernel.Library.Bitmap
import SoKernel.Library.Loops

/-!
# The page frame allocator

This module models {lit}`memory/pfa.c`: a bitmap of 16384 frames of 4096 bytes,
in which a set bit marks a used frame, and the window
{lit}`[start_frame, total_frames)` from which frames are handed out, lowest
first.  Addresses are numbers; the alignment of {lit}`mem_start` is computed on
32 bits, as the source does.

The field {lit}`exhausted` is history only: it records that some call of
{lit}`pfa_alloc` has returned 0.

Main results:

- Theorem {lit}`pfaAlloc_cases`: an allocation either takes the lowest free
  frame or reports that there is none.
- Theorem {lit}`pfaAlloc_freeFrames`: the frames are handed out in increasing order.
- Theorem {lit}`used_pfaFree`: a release clears the bit of a managed frame and
  ignores every other address.
- Theorem {lit}`used_pfaInit`: after initialisation exactly the managed frames
  outside the module are free.
-/

namespace SoKernel

/-- Arithmetic on {lit}`uint32_t`. -/
def u32 (n : Nat) : Nat :=
  n % 2 ^ 32

/-- Round an address up to a page boundary, on 32 bits. -/
def pageAlignUp (a : Nat) : Nat :=
  u32 (a + 4096 - 1) / 4096 * 4096

/-- The static state of the allocator. -/
structure Pfa where
  bitmap : Bitmap
  startFrame : Nat
  totalFrames : Nat
  exhausted : Bool

namespace Pfa

/-- Whether a frame is marked used. -/
def used (p : Pfa) (frame : Nat) : Bool :=
  p.bitmap.test frame

/-- A managed frame whose bit is clear. -/
def Free (p : Pfa) (frame : Nat) : Prop :=
  p.startFrame ≤ frame ∧ frame < p.totalFrames ∧ p.used frame = false

instance (p : Pfa) (frame : Nat) : Decidable (p.Free frame) :=
  inferInstanceAs (Decidable (_ ∧ _ ∧ _))

/-! ## The source functions -/

/-- {lit}`pfa_reserve`: mark the frame of an address used. -/
def pfaReserve (p : Pfa) (addr : Nat) : Pfa :=
  { p with bitmap := p.bitmap.set (addr / 4096) }

/-- The loop {lit}`for (addr = lo; addr < hi; addr += PAGE_SIZE) pfa_reserve(addr)`. -/
def reserveRange (p : Pfa) (lo hi : Nat) : Pfa :=
  forRange ((hi - lo + 4095) / 4096) (fun i q => q.pfaReserve (lo + 4096 * i)) p

/-- {lit}`pfa_init`: everything used, then the managed window free, then the
frames of the first module used again. -/
def pfaInit (memStart memEnd modStart modEnd : Nat) : Pfa :=
  let bitmapStart := pageAlignUp memStart
  let bitmapEnd := u32 (bitmapStart + 16384 / 8)
  let startFrame := pageAlignUp bitmapEnd / 4096
  let totalFrames := memEnd / 4096
  let full : Bitmap := fun _ => 0xFF
  let opened := forRange (totalFrames - startFrame)
    (fun i bm => Bitmap.clear bm (startFrame + i)) full
  let p : Pfa := ⟨opened, startFrame, totalFrames, false⟩
  if modStart ≠ 0 ∨ modEnd ≠ 0 then p.reserveRange modStart modEnd else p

/-- The search of {lit}`pfa_alloc`: the first clear bit among {lit}`n` frames
from {lit}`i` on. -/
def findFree (p : Pfa) : Nat → Nat → Option Nat
  | 0, _ => none
  | n + 1, i => if p.used i then p.findFree n (i + 1) else some i

/-- {lit}`pfa_alloc`: the address of the lowest free frame, now used, or 0. -/
def pfaAlloc (p : Pfa) : Nat × Pfa :=
  match p.findFree (p.totalFrames - p.startFrame) p.startFrame with
  | some i => (4096 * i, { p with bitmap := p.bitmap.set i })
  | none => (0, { p with exhausted := true })

/-- {lit}`pfa_free`: clear the bit of a managed frame. -/
def pfaFree (p : Pfa) (addr : Nat) : Pfa :=
  if addr / 4096 < p.startFrame ∨ addr / 4096 ≥ p.totalFrames then p
  else { p with bitmap := p.bitmap.clear (addr / 4096) }

/-! ## Allocation -/

/-- The scan stops at the first free frame. -/
theorem findFree_some {p : Pfa} {n i f : Nat} (h : p.findFree n i = some f) :
    i ≤ f ∧ f < i + n ∧ p.used f = false ∧ ∀ g, i ≤ g → g < f → p.used g = true := by
  induction n generalizing i with
  | zero => simp [findFree] at h
  | succ n ih =>
      simp only [findFree] at h
      split at h
      · rename_i hused
        obtain ⟨hlo, hhi, hfree, hbelow⟩ := ih h
        refine ⟨by omega, by omega, hfree, fun g hg hgf => ?_⟩
        by_cases hgi : g = i
        · exact hgi ▸ hused
        · exact hbelow g (by omega) hgf
      · rename_i hfree
        cases h
        exact ⟨le_rfl, by omega, by simpa using hfree, fun g hg hgf => by omega⟩

/-- The scan finds nothing when all frames are in use. -/
theorem findFree_none {p : Pfa} {n i : Nat} (h : p.findFree n i = none) :
    ∀ g, i ≤ g → g < i + n → p.used g = true := by
  induction n generalizing i with
  | zero => intro g hg hg'; omega
  | succ n ih =>
      simp only [findFree] at h
      split at h
      · rename_i hused
        intro g hg hg'
        by_cases hgi : g = i
        · exact hgi ▸ hused
        · exact ih h g (by omega) (by omega)
      · cases h

/-- What one call of {lit}`pfa_alloc` can do. -/
theorem pfaAlloc_cases (p : Pfa) :
    (∃ f, p.Free f ∧ (∀ g, p.startFrame ≤ g → g < f → p.used g = true) ∧
        p.pfaAlloc = (4096 * f, { p with bitmap := p.bitmap.set f })) ∨
      ((∀ f, ¬ p.Free f) ∧ p.pfaAlloc = (0, { p with exhausted := true })) := by
  cases h : p.findFree (p.totalFrames - p.startFrame) p.startFrame with
  | some f =>
      obtain ⟨hlo, hhi, hfree, hbelow⟩ := findFree_some h
      exact .inl ⟨f, ⟨hlo, by omega, hfree⟩, hbelow, by simp [pfaAlloc, h]⟩
  | none =>
      have hall := findFree_none h
      refine .inr ⟨fun f hf => ?_, by simp [pfaAlloc, h]⟩
      have hused := hall f hf.1 (by have := hf.2.1; have := hf.1; omega)
      simp [hf.2.2] at hused

/-- An allocation keeps the start of the window. -/
@[simp]
theorem pfaAlloc_startFrame (p : Pfa) : p.pfaAlloc.2.startFrame = p.startFrame := by
  rcases p.pfaAlloc_cases with ⟨f, _, _, h⟩ | ⟨_, h⟩ <;> rw [h]

/-- An allocation keeps the end of the window. -/
@[simp]
theorem pfaAlloc_totalFrames (p : Pfa) : p.pfaAlloc.2.totalFrames = p.totalFrames := by
  rcases p.pfaAlloc_cases with ⟨f, _, _, h⟩ | ⟨_, h⟩ <;> rw [h]

/-- The frames in use after one more was marked. -/
@[simp]
theorem used_mk_set (p : Pfa) (f g : Nat) (e : Bool) :
    ({ p with bitmap := p.bitmap.set f, exhausted := e } : Pfa).used g =
      (p.used g || decide (f = g)) := by
  simp [used]

/-- The number of free frames. -/
def freeCount (p : Pfa) : Nat :=
  ((Finset.Ico p.startFrame p.totalFrames).filter fun f => p.used f = false).card

/-- No frame is counted when none is free. -/
theorem freeCount_eq_zero {p : Pfa} : p.freeCount = 0 ↔ ∀ f, ¬ p.Free f := by
  rw [freeCount, Finset.card_eq_zero, Finset.filter_eq_empty_iff]
  constructor
  · rintro hnone f ⟨hlo, hhi, hfree⟩
    exact hnone (Finset.mem_Ico.2 ⟨hlo, hhi⟩) hfree
  · intro hnone f hf hfree
    rw [Finset.mem_Ico] at hf
    exact hnone f ⟨hf.1, hf.2, hfree⟩

/-- The count is a matter of the window and the bits. -/
theorem freeCount_congr {p p' : Pfa} (hstart : p'.startFrame = p.startFrame)
    (htotal : p'.totalFrames = p.totalFrames) (hused : ∀ f, p'.used f = p.used f) :
    p'.freeCount = p.freeCount := by
  simp only [freeCount, hstart, htotal, hused]

/-- An allocation takes one from the free frames, and fails only when there is none. -/
theorem freeCount_pfaAlloc (p : Pfa) :
    (∃ f, p.Free f ∧ p.pfaAlloc = (4096 * f, { p with bitmap := p.bitmap.set f }) ∧
        p.pfaAlloc.2.freeCount + 1 = p.freeCount) ∨
      (p.freeCount = 0 ∧ p.pfaAlloc = (0, { p with exhausted := true })) := by
  rcases p.pfaAlloc_cases with ⟨f, hf, -, h⟩ | ⟨hnone, h⟩
  · refine .inl ⟨f, hf, h, ?_⟩
    rw [h]
    simp only [freeCount, used_mk_set p f _ p.exhausted]
    have hmem : f ∈ (Finset.Ico p.startFrame p.totalFrames).filter fun g => p.used g = false := by
      simp [hf.1, hf.2.1, hf.2.2]
    rw [← Finset.card_erase_add_one hmem]
    congr 2
    apply Finset.ext
    intro g
    simp only [Finset.mem_filter, Finset.mem_Ico, Finset.mem_erase, Bool.or_eq_false_iff,
      decide_eq_false_iff_not]
    tauto
  · exact .inr ⟨freeCount_eq_zero.2 hnone, h⟩

/-- The free frames in the order in which they are handed out. -/
def freeFrames (p : Pfa) : List Nat :=
  (List.range' p.startFrame (p.totalFrames - p.startFrame)).filter fun f => !p.used f

/-- The list has the free frames. -/
theorem mem_freeFrames {p : Pfa} {f : Nat} : f ∈ p.freeFrames ↔ p.Free f := by
  simp only [freeFrames, List.mem_filter, List.mem_range'_1, Bool.not_eq_eq_eq_not, Bool.not_true,
    Free]
  constructor
  · rintro ⟨⟨hlo, hhi⟩, hfree⟩
    exact ⟨hlo, by omega, hfree⟩
  · rintro ⟨hlo, hhi, hfree⟩
    exact ⟨⟨hlo, by omega⟩, hfree⟩

/-- The list is as long as the count. -/
theorem length_freeFrames (p : Pfa) : p.freeFrames.length = p.freeCount := by
  have hnodup : p.freeFrames.Nodup := (List.nodup_range' 1).filter _
  rw [← List.toFinset_card_of_nodup hnodup, freeCount]
  congr 1
  apply Finset.ext
  intro f
  rw [List.mem_toFinset, mem_freeFrames, Finset.mem_filter, Finset.mem_Ico, and_assoc]
  rfl

/-- An allocation takes the first free frame; without one it returns 0. -/
theorem pfaAlloc_freeFrames (p : Pfa) :
    p.pfaAlloc.1 = 4096 * p.freeFrames.headD 0 ∧ p.pfaAlloc.2.freeFrames = p.freeFrames.tail := by
  rcases p.pfaAlloc_cases with ⟨f, ⟨hlo, hhi, hfree⟩, hbelow, h⟩ | ⟨hnone, h⟩
  · -- The window is cut at the frame that is taken.
    have hcut : List.range' p.startFrame (p.totalFrames - p.startFrame) =
        List.range' p.startFrame (f - p.startFrame) ++
          f :: List.range' (f + 1) (p.totalFrames - (f + 1)) := by
      obtain ⟨n, rfl⟩ : ∃ n, f = p.startFrame + n := Nat.exists_eq_add_of_le hlo
      rw [Nat.add_sub_cancel_left, ← List.range'_succ, List.range'_append_1]
      congr 1
      omega
    have hleft : ∀ q : Pfa, (∀ g, p.used g = true → q.used g = true) →
        (List.range' p.startFrame (f - p.startFrame)).filter (fun g => !q.used g) = [] := by
      intro q hq
      rw [List.filter_eq_nil_iff]
      intro g hg
      rw [List.mem_range'_1] at hg
      simp [hq g (hbelow g hg.1 (by omega))]
    have hused := fun g => used_mk_set p f g p.exhausted
    have hframes : p.freeFrames =
        f :: (List.range' (f + 1) (p.totalFrames - (f + 1))).filter fun g => !p.used g := by
      rw [freeFrames, hcut, List.filter_append, hleft p fun _ hg => hg, List.nil_append,
        List.filter_cons_of_pos (by simp [hfree])]
    rw [h, hframes]
    refine ⟨rfl, ?_⟩
    change (List.range' p.startFrame (p.totalFrames - p.startFrame)).filter _ = _
    rw [hcut, List.filter_append, hleft _ fun g hg => by rw [hused, hg]; rfl, List.nil_append,
      List.filter_cons_of_neg (by simp [hused]), List.tail_cons]
    refine List.filter_congr fun g hg => ?_
    rw [List.mem_range'_1] at hg
    rw [hused, decide_eq_false (by omega), Bool.or_false]
  · have hnil : p.freeFrames = [] :=
      List.eq_nil_iff_forall_not_mem.2 fun f hf => hnone f (mem_freeFrames.1 hf)
    rw [h, hnil]
    refine ⟨rfl, ?_⟩
    rw [List.tail_nil, ← hnil]
    rfl

/-- There are no more free frames than frames. -/
theorem freeCount_le (p : Pfa) : p.freeCount ≤ p.totalFrames := by
  unfold freeCount
  calc ((Finset.Ico p.startFrame p.totalFrames).filter fun f => p.used f = false).card
      ≤ (Finset.Ico p.startFrame p.totalFrames).card := Finset.card_filter_le _ _
    _ = p.totalFrames - p.startFrame := Nat.card_Ico _ _
    _ ≤ p.totalFrames := Nat.sub_le _ _

/-- Where the frames of a set become free, the count grows by their number. -/
theorem freeCount_release {p p' : Pfa} {O : Finset Nat} (hstart : p'.startFrame = p.startFrame)
    (htotal : p'.totalFrames = p.totalFrames)
    (hO : ∀ f ∈ O, p.startFrame ≤ f ∧ f < p.totalFrames ∧ p.used f = true)
    (hused : ∀ f, p'.used f = true ↔ p.used f = true ∧ f ∉ O) :
    p'.freeCount = p.freeCount + O.card := by
  have hdisj : Disjoint
      ((Finset.Ico p.startFrame p.totalFrames).filter fun f => p.used f = false) O := by
    rw [Finset.disjoint_left]
    intro f hf hfO
    rw [Finset.mem_filter, (hO f hfO).2.2] at hf
    cases hf.2
  rw [freeCount, freeCount, hstart, htotal, ← Finset.card_union_of_disjoint hdisj]
  congr 1
  apply Finset.ext
  intro f
  rw [Finset.mem_union, Finset.mem_filter, Finset.mem_filter, Finset.mem_Ico]
  have hiff := hused f
  constructor
  · rintro ⟨hf, hfree⟩
    by_cases hfO : f ∈ O
    · exact .inr hfO
    · refine .inl ⟨hf, ?_⟩
      simpa [hfree, hfO] using hiff
  · rintro (⟨hf, hfree⟩ | hfO)
    · refine ⟨hf, ?_⟩
      simpa [hfree] using hiff
    · obtain ⟨hlo, hhi, -⟩ := hO f hfO
      refine ⟨⟨hlo, hhi⟩, ?_⟩
      simpa [hfO] using hiff

/-! ## Release and reservation -/

/-- A release keeps the start of the window. -/
@[simp]
theorem pfaFree_startFrame (p : Pfa) (a : Nat) : (p.pfaFree a).startFrame = p.startFrame := by
  unfold pfaFree
  split <;> rfl

/-- A release keeps the end of the window. -/
@[simp]
theorem pfaFree_totalFrames (p : Pfa) (a : Nat) : (p.pfaFree a).totalFrames = p.totalFrames := by
  unfold pfaFree
  split <;> rfl

/-- A release does not take back that an allocation has failed. -/
@[simp]
theorem pfaFree_exhausted (p : Pfa) (a : Nat) : (p.pfaFree a).exhausted = p.exhausted := by
  unfold pfaFree
  split <;> rfl

/-- A release clears the bit of a managed frame and nothing else. -/
theorem used_pfaFree (p : Pfa) (a g : Nat) :
    (p.pfaFree a).used g = (p.used g && !decide (a / 4096 = g ∧ p.startFrame ≤ g ∧ g < p.totalFrames)) := by
  unfold pfaFree
  split
  · rename_i h
    have hout : ¬ (a / 4096 = g ∧ p.startFrame ≤ g ∧ g < p.totalFrames) := by omega
    simp [hout]
  · rename_i h
    simp only [used, Bitmap.test_clear]
    congr 3
    apply propext
    omega

/-- A reservation sets the bit of one frame and nothing else. -/
theorem used_pfaReserve (p : Pfa) (a g : Nat) :
    (p.pfaReserve a).used g = (p.used g || decide (a / 4096 = g)) := by
  simp [used, pfaReserve]

/-- A reservation keeps the window and is no allocation. -/
theorem reserveRange_frame (p : Pfa) (lo hi : Nat) :
    (p.reserveRange lo hi).startFrame = p.startFrame ∧
      (p.reserveRange lo hi).totalFrames = p.totalFrames ∧
      (p.reserveRange lo hi).exhausted = p.exhausted := by
  refine forRange_induct (fun _ (q : Pfa) => q.startFrame = p.startFrame ∧
    q.totalFrames = p.totalFrames ∧ q.exhausted = p.exhausted) ⟨rfl, rfl, rfl⟩ ?_
  intro i _ q hq
  exact hq

/-- The reservation loop marks the frames of the addresses it steps through. -/
theorem used_reserveRange (p : Pfa) (lo hi g : Nat) :
    (p.reserveRange lo hi).used g = true ↔
      p.used g = true ∨ ∃ i, lo + 4096 * i < hi ∧ (lo + 4096 * i) / 4096 = g := by
  have hloop : ∀ n, (forRange n (fun i q => q.pfaReserve (lo + 4096 * i)) p).used g = true ↔
      p.used g = true ∨ ∃ i, i < n ∧ (lo + 4096 * i) / 4096 = g := by
    intro n
    induction n with
    | zero => simp
    | succ n ih =>
        rw [forRange_succ, used_pfaReserve]
        simp only [Bool.or_eq_true, decide_eq_true_eq, ih, or_assoc]
        apply or_congr Iff.rfl
        constructor
        · rintro (⟨i, hi, hg⟩ | hg)
          · exact ⟨i, by omega, hg⟩
          · exact ⟨n, by omega, hg⟩
        · rintro ⟨i, hi, hg⟩
          by_cases hin : i = n
          · exact .inr (hin ▸ hg)
          · exact .inl ⟨i, by omega, hg⟩
  rw [reserveRange, hloop]
  apply or_congr Iff.rfl
  constructor
  · rintro ⟨i, hi', hg⟩
    exact ⟨i, by omega, hg⟩
  · rintro ⟨i, hi', hg⟩
    exact ⟨i, by omega, hg⟩

/-! ## Initialisation -/

/-- The bits that {lit}`pfa_init` clears. -/
theorem test_open_window (lo n g : Nat) :
    Bitmap.test (forRange n (fun i bm => Bitmap.clear bm (lo + i)) fun _ => 0xFF) g = false ↔
      lo ≤ g ∧ g < lo + n := by
  induction n with
  | zero =>
      simp only [forRange_zero, Bitmap.test_full]
      constructor
      · intro h
        cases h
      · intro h
        omega
  | succ n ih =>
      rw [forRange_succ, Bitmap.test_clear]
      simp only [Bool.and_eq_false_iff, ih, Bool.not_eq_false', decide_eq_true_eq]
      omega

/-- After {lit}`pfa_init` the used frames are those outside the managed window
and those the module loop stepped through. -/
theorem used_pfaInit (memStart memEnd modStart modEnd g : Nat) :
    (pfaInit memStart memEnd modStart modEnd).used g = true ↔
      ¬ ((pfaInit memStart memEnd modStart modEnd).startFrame ≤ g ∧
          g < (pfaInit memStart memEnd modStart modEnd).totalFrames) ∨
        ∃ i, modStart + 4096 * i < modEnd ∧ (modStart + 4096 * i) / 4096 = g := by
  simp only [pfaInit]
  split
  · simp only [(reserveRange_frame _ _ _).1, (reserveRange_frame _ _ _).2.1,
      used_reserveRange]
    apply or_congr _ Iff.rfl
    rw [used, ← Bool.not_eq_false, test_open_window]
    omega
  · rename_i hmod
    have hempty : ¬ ∃ i, modStart + 4096 * i < modEnd ∧ (modStart + 4096 * i) / 4096 = g := by
      rintro ⟨i, hi, _⟩
      omega
    rw [used, ← Bool.not_eq_false, test_open_window]
    simp only [hempty, or_false]
    omega

/-- No allocation has failed yet. -/
@[simp]
theorem pfaInit_exhausted (memStart memEnd modStart modEnd : Nat) :
    (pfaInit memStart memEnd modStart modEnd).exhausted = false := by
  simp only [pfaInit]
  split
  · exact (reserveRange_frame _ _ _).2.2
  · rfl

/-- The window ends with the last whole frame. -/
theorem pfaInit_totalFrames (memStart memEnd modStart modEnd : Nat) :
    (pfaInit memStart memEnd modStart modEnd).totalFrames = memEnd / 4096 := by
  simp only [pfaInit]
  split
  · exact (reserveRange_frame _ _ _).2.1
  · rfl

/-- The window starts behind the bitmap, which is put behind the kernel. -/
theorem pfaInit_startFrame (memStart memEnd modStart modEnd : Nat) :
    (pfaInit memStart memEnd modStart modEnd).startFrame =
      pageAlignUp (u32 (pageAlignUp memStart + 2048)) / 4096 := by
  simp only [pfaInit]
  split
  · exact (reserveRange_frame _ _ _).1
  · rfl

/-! ## Counting after initialisation -/

/-- A reservation takes at most one free frame. -/
theorem freeCount_pfaReserve (p : Pfa) (a : Nat) :
    p.freeCount ≤ (p.pfaReserve a).freeCount + 1 := by
  have hsub : ((Finset.Ico p.startFrame p.totalFrames).filter fun f => p.used f = false) ⊆
      insert (a / 4096) ((Finset.Ico p.startFrame p.totalFrames).filter fun f =>
        (p.pfaReserve a).used f = false) := by
    intro f hf
    rw [Finset.mem_filter] at hf
    rw [Finset.mem_insert, Finset.mem_filter, used_pfaReserve]
    by_cases hfa : f = a / 4096
    · exact .inl hfa
    · refine .inr ⟨hf.1, ?_⟩
      rw [hf.2]
      simpa using Ne.symm hfa
  exact (Finset.card_le_card hsub).trans (Finset.card_insert_le _ _)

/-- A reservation loop takes at most one free frame in each pass. -/
theorem freeCount_reserveRange (p : Pfa) (lo hi : Nat) :
    p.freeCount ≤ (p.reserveRange lo hi).freeCount + (hi - lo + 4095) / 4096 := by
  unfold reserveRange
  induction (hi - lo + 4095) / 4096 with
  | zero => simp
  | succ n ih =>
      rw [forRange_succ]
      have hstep := (forRange n (fun i q => q.pfaReserve (lo + 4096 * i)) p).freeCount_pfaReserve
        (lo + 4096 * n)
      omega

/-- After {lit}`pfa_init` all managed frames are free but those of the module. -/
theorem freeCount_pfaInit (memStart memEnd modStart modEnd : Nat) :
    (pfaInit memStart memEnd modStart modEnd).totalFrames ≤
      (pfaInit memStart memEnd modStart modEnd).freeCount +
        (pfaInit memStart memEnd modStart modEnd).startFrame + (modEnd - modStart + 4095) / 4096 := by
  have hopen : ∀ (start total : Nat) (e : Bool), total ≤ (⟨forRange (total - start)
      (fun i bm => Bitmap.clear bm (start + i)) fun _ => 0xFF, start, total, e⟩ : Pfa).freeCount +
        start := by
    intro start total e
    have hall : (Finset.Ico start total).filter (fun f => (⟨forRange (total - start)
        (fun i bm => Bitmap.clear bm (start + i)) fun _ => 0xFF, start, total, e⟩ : Pfa).used f =
          false) = Finset.Ico start total := by
      refine Finset.filter_true_of_mem fun f hf => ?_
      rw [Finset.mem_Ico] at hf
      exact (test_open_window start (total - start) f).2 ⟨hf.1, by omega⟩
    rw [freeCount, hall, Nat.card_Ico]
    omega
  rw [pfaInit_totalFrames, pfaInit_startFrame, show (2048 : Nat) = 16384 / 8 from rfl]
  simp only [pfaInit]
  have hstart := hopen (pageAlignUp (u32 (pageAlignUp memStart + 16384 / 8)) / 4096) (memEnd / 4096)
    false
  split
  · have hrange := freeCount_reserveRange ⟨forRange (memEnd / 4096 -
      pageAlignUp (u32 (pageAlignUp memStart + 16384 / 8)) / 4096) (fun i bm => Bitmap.clear bm
        (pageAlignUp (u32 (pageAlignUp memStart + 16384 / 8)) / 4096 + i)) fun _ => 0xFF,
      pageAlignUp (u32 (pageAlignUp memStart + 16384 / 8)) / 4096, memEnd / 4096, false⟩
      modStart modEnd
    omega
  · omega

end Pfa

/-- The frame window of the allocator: it starts above frame 0 and ends within 64 MB. -/
def PfaWindow (p : Pfa) : Prop :=
  0 < p.startFrame ∧ p.totalFrames ≤ 16384

end SoKernel
